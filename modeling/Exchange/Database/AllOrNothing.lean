import Exchange.Database.Failures
import Exchange.Database.Postgres
import Exchange.Database.Resume

/-!
# A polling process whose statements fail

The loop of `ClientDatabase::start_polling` over a store whose `update_on_execution` may fail
anywhere, while the journal is being written and the process goes down and is started again. The
loop goes on to the next record whatever has become of the last one. Only a process that is started
again reads a record a second time, from the offset it finds in the store.

So a record that leaves nothing is lost as soon as a later one is saved, and one that leaves a part
stays like that. Where neither happens, what is saved and what a query sees always are what an
undisturbed process makes of some first records of the journal (`records_whole`).
-/

namespace Exchange

open MmapLog Lib

/-- A store as the polling loop uses it, over connections `γ` and contents `σ`, of which `ε` is what
a record has an effect on. -/
structure Store (γ σ ε : Type) where
  empty : σ
  getLastLogOffset : σ → Nat
  /-- `update_on_execution`, where nothing fails. -/
  updateOnExecution : σ → OrderResponse → Nat → σ
  effects : σ → ε
  /-- A connection to an empty store. -/
  init : γ
  /-- What is saved. -/
  disk : γ → σ
  /-- What a query sees. -/
  view : γ → σ
  /-- The process goes down. -/
  close : γ → γ
  /-- `update_on_execution`. -/
  attempt : γ → Fates → OrderResponse → Nat → γ
  /-- The record leaves all of its effects. -/
  holds : γ → Fates → OrderResponse → Bool
  /-- The record leaves none of its effects. -/
  idle : γ → Fates → OrderResponse → Bool
  offset_empty : getLastLogOffset empty = 0
  offset_update : ∀ db resp logOffset, getLastLogOffset (updateOnExecution db resp logOffset) = logOffset
  offset_congr : ∀ {a b}, effects a = effects b → getLastLogOffset a = getLastLogOffset b
  effects_congr : ∀ {a b}, effects a = effects b → ∀ resp logOffset,
    effects (updateOnExecution a resp logOffset) = effects (updateOnExecution b resp logOffset)
  disk_init : disk init = empty
  view_init : view init = empty
  disk_close : ∀ c, disk (close c) = disk c
  view_close : ∀ c, view (close c) = disk c
  attempt_holds : ∀ {c f resp}, holds c f resp = true → ∀ logOffset,
    effects (view (attempt c f resp logOffset)) = effects (updateOnExecution (view c) resp logOffset) ∧
      (effects (disk (attempt c f resp logOffset)) = effects (disk c) ∨
        disk (attempt c f resp logOffset) = view (attempt c f resp logOffset))
  attempt_idle : ∀ {c f resp}, idle c f resp = true → ∀ logOffset,
    (effects (view (attempt c f resp logOffset)) = effects (view c) ∨
        effects (view (attempt c f resp logOffset)) = effects (disk c)) ∧
      (effects (disk (attempt c f resp logOffset)) = effects (disk c) ∨
        disk (attempt c f resp logOffset) = view (attempt c f resp logOffset))

/-- `SQLiteClientDatabase`. -/
def SQLiteClientDatabase.store :
    Store (Connection SQLiteClientDatabase) SQLiteClientDatabase SQLiteClientDatabase.Effects where
  empty := .empty
  getLastLogOffset := getLastLogOffset
  updateOnExecution := updateOnExecution
  effects := effects
  init := ⟨.empty, none⟩
  disk := Connection.disk
  view := Connection.view
  close := Connection.close
  attempt := attempt
  holds := holds
  idle := idle
  offset_empty := rfl
  offset_update _ _ _ := rfl
  offset_congr h := congrArg (fun e : Effects => e.logOffset.getD 0) h
  effects_congr h := effects_updateOnExecution h
  disk_init := rfl
  view_init := rfl
  disk_close _ := rfl
  view_close _ := rfl
  attempt_holds h logOffset := ⟨congrArg effects (attempt_holds h logOffset).1, (attempt_holds h logOffset).2⟩
  attempt_idle h := attempt_idle h

/-- `PostgresClientDatabase`, whose transactions do not outlive a call. -/
def PostgresClientDatabase.store :
    Store PostgresClientDatabase PostgresClientDatabase PostgresClientDatabase where
  empty := .empty
  getLastLogOffset := getLastLogOffset
  updateOnExecution := updateOnExecution
  effects := id
  init := .empty
  disk := id
  view := id
  close := id
  attempt := attempt
  holds _ := holds
  idle _ f resp := !holds f resp
  offset_empty := rfl
  offset_update _ _ _ := rfl
  offset_congr h := congrArg getLastLogOffset h
  effects_congr h _ _ := congrArg (fun db => updateOnExecution db _ _) h
  disk_init := rfl
  view_init := rfl
  disk_close _ := rfl
  view_close _ := rfl
  attempt_holds h logOffset := ⟨attempt_holds h logOffset _, Or.inr rfl⟩
  attempt_idle h logOffset :=
    ⟨Or.inl (attempt_idle (Bool.not_eq_true' _ |>.mp h) logOffset _), Or.inr rfl⟩

/-- The journal with its writer, the process, and its connection. -/
structure Poller (γ : Type) where
  journal : Sys
  process : PollProcess
  conn : γ
  /-- The process has passed over a record that has left nothing. -/
  behind : Bool

/-- What the process tries. -/
inductive Attempt
  /-- It is started; `getLastLogOffset` finds the saved offset, or fails and returns 0. -/
  | start (found : Bool)
  | record (f : Fates) (resp : OrderResponse)

namespace Store

variable {γ σ ε : Type} (B : Store γ σ ε)

/-- An empty directory and an empty store. -/
def initial : Poller γ := ⟨.init, .down, B.init, false⟩

/-- What can happen next; the process tries only what meets `K`. -/
inductive Step (K : Poller γ → Attempt → Prop) (l : ResponseLayout) (maxFileSize : Nat)
    (st : Poller γ) : Poller γ → Prop
  | journal {sys : Sys} (hstep : Sys.Step maxFileSize st.journal sys) :
      Step K l maxFileSize st { st with journal := sys }
  | start (found : Bool) (hdown : st.process = .down) (hK : K st (.start found)) :
      Step K l maxFileSize st { st with
        process := .polling (Polling.startReader st.journal.dir
          (if found then B.getLastLogOffset (B.disk st.conn) else 0))
        behind := false }
  | sleep {r r' : MmapReader} {fuel : Nat} (hpolling : st.process = .polling r)
      (hrun : r.readNext st.journal.dir fuel = some (none, r')) :
      Step K l maxFileSize st { st with process := .polling r' }
  | read {r r' : MmapReader} {fuel : Nat} {data : Payload} (hpolling : st.process = .polling r)
      (hrun : r.readNext st.journal.dir fuel = some (some data, r')) :
      Step K l maxFileSize st { st with process := .applying r' data }
  | short {r : MmapReader} {data : Payload} (hread : st.process = .applying r data)
      (hshort : data.length < l.size) :
      Step K l maxFileSize st { st with process := .polling r }
  | update {r : MmapReader} {data : Payload} {f : Fates} (hread : st.process = .applying r data)
      (hlong : l.size ≤ data.length)
      (hK : K st (.record f (l.cast st.journal.dir r data.length))) :
      Step K l maxFileSize st { st with
        process := .polling r
        conn := B.attempt st.conn f (l.cast st.journal.dir r data.length) r.getOffset
        behind := st.behind || B.idle st.conn f (l.cast st.journal.dir r data.length) }
  | crash : Step K l maxFileSize st { st with process := .down, conn := B.close st.conn }

/-- The states these steps lead to. -/
inductive Run (K : Poller γ → Attempt → Prop) (l : ResponseLayout) (maxFileSize : Nat) : Poller γ → Prop
  | init : Run K l maxFileSize B.initial
  | step {st st' : Poller γ} (h : Run K l maxFileSize st) (hstep : B.Step K l maxFileSize st st') :
      Run K l maxFileSize st'

/-- A record that leaves all of its effects, with none before it that the process has passed over;
or one that leaves none. A start that finds the saved offset, if there is one. -/
def Safe (st : Poller γ) : Attempt → Prop
  | .start found => found = true ∨ B.getLastLogOffset (B.disk st.conn) = 0
  | .record f resp =>
    (B.holds st.conn f resp = true ∧ st.behind = false) ∨ B.idle st.conn f resp = true

/-- The next `n` records, as an undisturbed process applies them; none where they are not there, or
a call of `read_next` takes more than `fuel`. -/
def replay (l : ResponseLayout) (d : Dir) (fuel : Nat) : Nat → MmapReader → σ → Option σ
  | 0, _, db => some db
  | n + 1, r, db => do
    match ← r.readNext d fuel with
    | (none, _) => none
    | (some data, r) =>
      replay l d fuel n r
        (if l.size ≤ data.length then B.updateOnExecution db (l.cast d r data.length) r.getOffset else db)

/-- What is saved, and what a query sees, is what the first records of the journal make of an empty
store: as many, or more of them. -/
def Whole (l : ResponseLayout) (st : Poller γ) : Prop :=
  ∀ fuel, st.journal.rolled + 1 < fuel → ∃ n m a b, n ≤ m ∧
    B.replay l st.journal.dir fuel n (.create st.journal.dir) B.empty = some a ∧
    B.replay l st.journal.dir fuel m (.create st.journal.dir) B.empty = some b ∧
    B.effects (B.disk st.conn) = B.effects a ∧ B.effects (B.view st.conn) = B.effects b

/-! ## What the first records make of an empty store -/

section Records

variable {B} {l : ResponseLayout} {xs : List (Payload × Nat)} {db : σ} {n : Nat}

/-- A record in its place. -/
def enter (B : Store γ σ ε) (l : ResponseLayout) (db : σ) (x : Payload × Nat) : σ :=
  if l.size ≤ x.1.length then B.updateOnExecution db (l.decode (x.1.take l.size)) x.2 else db

/-- The records `xs`, from an empty store on. -/
def made (B : Store γ σ ε) (l : ResponseLayout) (xs : List (Payload × Nat)) : σ :=
  xs.foldl (B.enter l) B.empty

theorem made_succ {x : Payload × Nat} (hx : xs[n]? = some x) :
    B.made l (xs.take (n + 1)) = B.enter l (B.made l (xs.take n)) x := by
  unfold made
  rw [List.take_add_one, hx, Option.toList_some, List.foldl_append]
  rfl

/-- What a record does depends on what it finds, effects only. -/
theorem effects_enter {a b : σ} (h : B.effects a = B.effects b) (x : Payload × Nat) :
    B.effects (B.enter l a x) = B.effects (B.enter l b x) := by
  unfold enter
  split
  · exact B.effects_congr h _ _
  · exact h

/-- The store holds the first `n` of the records, and its offset leads behind the last of them that
counted, or there is none. -/
structure Stored (B : Store γ σ ε) (l : ResponseLayout) (xs : List (Payload × Nat)) (db : σ) (n : Nat) :
    Prop where
  within : n ≤ xs.length
  whole : B.effects db = B.effects (B.made l (xs.take n))
  offset : (B.getLastLogOffset db = 0 ∧ B.effects db = B.effects B.empty) ∨
    ∃ k p, k < n ∧ xs[k]? = some (p, B.getLastLogOffset db) ∧
      B.effects db = B.effects (B.made l (xs.take (k + 1)))

theorem stored_empty (B : Store γ σ ε) (l : ResponseLayout) (xs : List (Payload × Nat)) :
    B.Stored l xs B.empty 0 :=
  ⟨Nat.zero_le _, rfl, Or.inl ⟨B.offset_empty, rfl⟩⟩

/-- Stored is said of the effects only. -/
theorem Stored.congr (h : B.Stored l xs db n) {db' : σ} (he : B.effects db' = B.effects db) :
    B.Stored l xs db' n := by
  have hwhole := h.whole
  have hoffset := h.offset
  rw [← he] at hwhole hoffset
  rw [← B.offset_congr he] at hoffset
  exact ⟨h.within, hwhole, hoffset⟩

/-- More of the journal. -/
theorem Stored.grow (h : B.Stored l xs db n) {ys : List (Payload × Nat)} (hpre : xs <+: ys) :
    B.Stored l ys db n := by
  obtain ⟨more, rfl⟩ := hpre
  have htake : ∀ k, k ≤ xs.length → (xs ++ more).take k = xs.take k := fun k hk =>
    List.take_append_of_le_length hk
  have hwithin := h.within
  refine ⟨?_, ?_, ?_⟩
  · rw [List.length_append]
    omega
  · rw [htake n hwithin]
    exact h.whole
  · rcases h.offset with hnone | ⟨k, p, hk, hp, hdb⟩
    · exact Or.inl hnone
    · refine Or.inr ⟨k, p, hk, ?_, ?_⟩
      · rw [List.getElem?_append_left (by omega)]
        exact hp
      · rw [htake (k + 1) (by omega)]
        exact hdb

/-- The next record. -/
theorem Stored.enter (h : B.Stored l xs db n) {x : Payload × Nat} (hx : xs[n]? = some x) :
    B.Stored l xs (B.enter l db x) (n + 1) := by
  have hlt := (List.getElem?_eq_some_iff.mp hx).1
  have hmade : B.effects (B.enter l db x) = B.effects (B.made l (xs.take (n + 1))) := by
    rw [made_succ hx]
    exact effects_enter h.whole x
  refine ⟨hlt, hmade, ?_⟩
  by_cases hlong : l.size ≤ x.1.length
  · refine Or.inr ⟨n, x.1, Nat.lt_succ_self n, ?_, hmade⟩
    unfold Store.enter
    rw [if_pos hlong, B.offset_update]
    exact hx
  · unfold Store.enter
    rw [if_neg hlong]
    rcases h.offset with hnone | ⟨k, p, hk, hp, hdb⟩
    · exact Or.inl hnone
    · exact Or.inr ⟨k, p, Nat.lt_succ_of_lt hk, hp, hdb⟩

end Records

/-! ## The invariant -/

/-- What the process has read, with `m` records in the store. -/
def ProcessOk (maxFileSize : Nat) (d : Dir) (full : List (List Payload)) (cur : List Payload)
    (behind : Bool) (m : Nat) : PollProcess → Prop
  | .down => True
  | .polling r => ∃ got, At maxFileSize d full cur r got ∧ m ≤ got.length ∧
      (behind = false → m = got.length)
  | .applying r data => ∃ got, At maxFileSize d full cur r (got ++ [data]) ∧ r.mapped = true ∧
      0 < r.currentOffset ∧ m ≤ got.length ∧ (behind = false → m = got.length)

/-- The invariant of a run. -/
structure Inv (B : Store γ σ ε) (l : ResponseLayout) (maxFileSize : Nat) (st : Poller γ)
    (full : List (List Payload)) (cur : List Payload) : Prop where
  written : Written maxFileSize st.journal full cur
  stored : ∃ n m, n ≤ m ∧ B.Stored l (places 0 (full ++ [cur])) (B.disk st.conn) n ∧
    B.Stored l (places 0 (full ++ [cur])) (B.view st.conn) m ∧
    ProcessOk maxFileSize st.journal.dir full cur st.behind m st.process
  /-- A process that is down has no transaction. -/
  closed : st.process = .down → B.effects (B.view st.conn) = B.effects (B.disk st.conn)

section Steps

variable {B} {l : ResponseLayout} {maxFileSize : Nat} {d : Dir} {full : List (List Payload)}
  {cur : List Payload} {st st' : Poller γ}

/-- A process that is started stands behind the last record that counted. -/
theorem Stored.start {db : σ} (hpub : Published maxFileSize d full cur) (hsize : maxFileSize - 8 < 2 ^ 32)
    {n : Nat} (h : B.Stored l (places 0 (full ++ [cur])) db n) {found : Bool}
    (hfound : found = true ∨ B.getLastLogOffset db = 0) : ∃ got,
      At maxFileSize d full cur (Polling.startReader d (if found then B.getLastLogOffset db else 0)) got ∧
        B.Stored l (places 0 (full ++ [cur])) db got.length := by
  have hoffset : (if found then B.getLastLogOffset db else 0) = B.getLastLogOffset db := by
    rcases hfound with rfl | hzero
    · rfl
    · rw [hzero, ite_self]
  rw [hoffset]
  unfold Polling.startReader
  rcases h.offset with ⟨hzero, hempty⟩ | ⟨k, p, hk, hp, hdb⟩
  · rw [if_neg (not_not.mpr hzero)]
    exact ⟨[], At.open hpub _ (Nat.zero_le _), (stored_empty B l _).congr hempty⟩
  · obtain ⟨hne, got, hlen, hat⟩ := At.seek hpub hsize hp
    rw [if_pos hne]
    refine ⟨got, hat, ?_⟩
    rw [hlen]
    exact ⟨(List.getElem?_eq_some_iff.mp hp).1, hdb, Or.inr ⟨k, p, Nat.lt_succ_self k, hp, hdb⟩⟩

/-- The process handles the record in its place. -/
theorem update_eq_enter {r : MmapReader} {got : List Payload} {data : Payload}
    (h : At maxFileSize d full cur r (got ++ [data])) (hmapped : r.mapped = true)
    (hoffset : 0 < r.currentOffset) (db : σ) :
    (if l.size ≤ data.length then B.updateOnExecution db (l.cast d r data.length) r.getOffset else db) =
      B.enter l db (data, r.getOffset) := by
  unfold enter
  split
  · rename_i hlong
    rw [cast_eq h hmapped hoffset hlong]
  · rfl

/-- What a step saves. -/
theorem Stored.saved {xs : List (Payload × Nat)} {a a' b' : σ} {n m : Nat} (hle : n ≤ m)
    (ha : B.Stored l xs a n) (hb : B.Stored l xs b' m) (h : B.effects a' = B.effects a ∨ a' = b') :
    ∃ n', n' ≤ m ∧ B.Stored l xs a' n' := by
  rcases h with h | rfl
  · exact ⟨n, hle, ha.congr h⟩
  · exact ⟨m, le_rfl, hb⟩

/-- What the writer appends leaves the poller where it is. -/
theorem ProcessOk.grow {behind : Bool} {m : Nat} {process : PollProcess}
    (h : ProcessOk maxFileSize d full cur behind m process) (hpub : Published maxFileSize d full cur)
    {d' : Dir} {full' : List (List Payload)} {cur' : List Payload}
    (hgrows : Grows maxFileSize d d' full full' cur cur') :
    ProcessOk maxFileSize d' full' cur' behind m process := by
  cases process with
  | down => trivial
  | polling r =>
    obtain ⟨got, hat, hrest⟩ := h
    exact ⟨got, hat.grows hpub hgrows, hrest⟩
  | applying r data =>
    obtain ⟨got, hat, hrest⟩ := h
    exact ⟨got, hat.grows hpub hgrows, hrest⟩

/-- At the start there is nothing to store. -/
theorem inv_init (B : Store γ σ ε) (l : ResponseLayout) (maxFileSize : Nat) :
    Inv B l maxFileSize B.initial [] [] := by
  refine ⟨(MmapLog.inv_init maxFileSize).written, ⟨0, 0, le_rfl, ?_, ?_, trivial⟩, fun _ => ?_⟩
  · show B.Stored l _ (B.disk B.init) 0
    rw [B.disk_init]
    exact stored_empty B l _
  · show B.Stored l _ (B.view B.init) 0
    rw [B.view_init]
    exact stored_empty B l _
  · show B.effects (B.view B.init) = B.effects (B.disk B.init)
    rw [B.disk_init, B.view_init]

/-- A record that leaves all of its effects is the next one; one that leaves none leaves the view as
it was, or what is saved. -/
theorem Inv.update (h : Inv B l maxFileSize st full cur) {r : MmapReader} {data : Payload} {f : Fates}
    (hread : st.process = .applying r data) (hlong : l.size ≤ data.length)
    (hsafe : B.Safe st (.record f (l.cast st.journal.dir r data.length))) :
    Inv B l maxFileSize { st with
      process := .polling r
      conn := B.attempt st.conn f (l.cast st.journal.dir r data.length) r.getOffset
      behind := st.behind || B.idle st.conn f (l.cast st.journal.dir r data.length) } full cur := by
  obtain ⟨n, m, hle, hdisk, hview, hprocess⟩ := h.stored
  rw [hread] at hprocess
  obtain ⟨got, hat, hmapped, hoffset, hm, hbehind⟩ := hprocess
  have hlen : (got ++ [data]).length = got.length + 1 := List.length_append
  refine ⟨h.written, ?_, fun hdown => by cases hdown⟩
  cases hidle : B.idle st.conn f (l.cast st.journal.dir r data.length) with
  | true =>
    obtain ⟨hv, hd⟩ := B.attempt_idle hidle r.getOffset
    obtain ⟨m', hm', hview'⟩ : ∃ m', m' ≤ m ∧ n ≤ m' ∧ B.Stored l (places 0 (full ++ [cur]))
        (B.view (B.attempt st.conn f (l.cast st.journal.dir r data.length) r.getOffset)) m' := by
      rcases hv with hv | hv
      · exact ⟨m, le_rfl, hle, hview.congr hv⟩
      · exact ⟨n, hle, le_rfl, hdisk.congr hv⟩
    obtain ⟨n', hle', hdisk'⟩ := hdisk.saved hview'.1 hview'.2 hd
    refine ⟨n', m', hle', hdisk', hview'.2, got ++ [data], hat, by omega, fun hnot => ?_⟩
    dsimp only at hnot
    rw [Bool.or_true] at hnot
    cases hnot
  | false =>
    have hheld : B.holds st.conn f (l.cast st.journal.dir r data.length) = true ∧ st.behind = false := by
      rcases hsafe with hsafe | hsafe
      · exact hsafe
      · rw [hidle] at hsafe
        cases hsafe
    obtain rfl := hbehind hheld.2
    obtain ⟨hv, hd⟩ := B.attempt_holds hheld.1 r.getOffset
    have hview' : B.Stored l (places 0 (full ++ [cur]))
        (B.view (B.attempt st.conn f (l.cast st.journal.dir r data.length) r.getOffset)) (got.length + 1) := by
      refine (hview.enter (hat.place hmapped hoffset).1).congr ?_
      rw [← update_eq_enter hat hmapped hoffset, if_pos hlong]
      exact hv
    obtain ⟨n', hle', hdisk'⟩ := hdisk.saved (Nat.le_succ_of_le hle) hview' hd
    exact ⟨n', got.length + 1, hle', hdisk', hview', got ++ [data], hat, by omega, fun _ => hlen.symm⟩

/-- One step: a record is stored whole or not at all. -/
theorem Inv.step (h : Inv B l maxFileSize st full cur) (hstep : B.Step B.Safe l maxFileSize st st')
    (hsmall : st'.journal.rolled < 2 ^ 32) (hsize : maxFileSize - 8 < 2 ^ 32) :
    ∃ full' cur', Inv B l maxFileSize st' full' cur' := by
  have hpub := h.written.published
  obtain ⟨n, m, hle, hdisk, hview, hprocess⟩ := h.stored
  cases hstep with
  | journal hstep =>
    obtain ⟨full', cur', hwritten, hgrows⟩ := h.written.step hstep hsmall
    exact ⟨full', cur', hwritten,
      ⟨n, m, hle, hdisk.grow hgrows.places, hview.grow hgrows.places, hprocess.grow hpub hgrows⟩, h.closed⟩
  | start found hdown hK =>
    obtain ⟨got, hat, hstored⟩ := hdisk.start hpub hsize hK
    refine ⟨full, cur, h.written, ⟨got.length, got.length, le_rfl, hstored, hstored.congr (h.closed hdown),
      got, hat, le_rfl, fun _ => rfl⟩, fun hdown => by cases hdown⟩
  | sleep hpolling hrun =>
    rw [hpolling] at hprocess
    obtain ⟨got, hat, hrest⟩ := hprocess
    have hnext := hat.read hpub (h.written.rolled ▸ hsmall) hrun
    exact ⟨full, cur, h.written, ⟨n, m, hle, hdisk, hview, got, hnext.1, hrest⟩, fun hdown => by cases hdown⟩
  | read hpolling hrun =>
    rw [hpolling] at hprocess
    obtain ⟨got, hat, hrest⟩ := hprocess
    have hnext := hat.read hpub (h.written.rolled ▸ hsmall) hrun
    obtain ⟨hmapped, hoffset⟩ := readNext_behind hrun
    exact ⟨full, cur, h.written, ⟨n, m, hle, hdisk, hview, got, hnext, hmapped, hoffset, hrest⟩,
      fun hdown => by cases hdown⟩
  | @short r data hread hshort =>
    rw [hread] at hprocess
    obtain ⟨got, hat, hmapped, hoffset, hm, hbehind⟩ := hprocess
    have hlen : (got ++ [data]).length = got.length + 1 := List.length_append
    refine ⟨full, cur, h.written, ?_, fun hdown => by cases hdown⟩
    cases hb : st.behind with
    | true =>
      exact ⟨n, m, hle, hdisk, hview, got ++ [data], hat, by omega, fun hnot => by cases hnot⟩
    | false =>
      obtain rfl := hbehind hb
      -- a record that is not applied
      have hview' := hview.enter (hat.place hmapped hoffset).1
      rw [← update_eq_enter hat hmapped hoffset, if_neg (by omega)] at hview'
      exact ⟨n, got.length + 1, by omega, hdisk, hview', got ++ [data], hat, by omega, fun _ => hlen.symm⟩
  | update hread hlong hK => exact ⟨full, cur, h.update hread hlong hK⟩
  | crash =>
    refine ⟨full, cur, h.written, ⟨n, n, le_rfl, ?_, ?_, trivial⟩, fun _ => ?_⟩
    · dsimp only
      rw [B.disk_close]
      exact hdisk
    · dsimp only
      rw [B.view_close]
      exact hdisk
    · dsimp only
      rw [B.disk_close, B.view_close]

/-- Files are only rolled forward. -/
theorem Step.rolled_le {K : Poller γ → Attempt → Prop} (h : B.Step K l maxFileSize st st') :
    st.journal.rolled ≤ st'.journal.rolled := by
  cases h
  case journal hstep => exact hstep.rolled_le
  all_goals exact le_rfl

theorem Run.inv (h : B.Run B.Safe l maxFileSize st) (hsmall : st.journal.rolled < 2 ^ 32)
    (hsize : maxFileSize - 8 < 2 ^ 32) : ∃ full cur, Inv B l maxFileSize st full cur := by
  induction h with
  | init => exact ⟨[], [], inv_init B l maxFileSize⟩
  | step _ hstep ih =>
    obtain ⟨full, cur, hinv⟩ := ih (Nat.lt_of_le_of_lt hstep.rolled_le hsmall)
    exact hinv.step hstep hsmall hsize

/-- The next records, read one after the other as far as they are there. -/
theorem replay_eq (hpub : Published maxFileSize d full cur) (hsmall : full.length < 2 ^ 32) {fuel : Nat}
    (hfuel : full.length + 1 < fuel) : ∀ {n : Nat} {r : MmapReader} {got : List Payload},
      At maxFileSize d full cur r got →
      B.replay l d fuel n r (B.made l ((places 0 (full ++ [cur])).take got.length)) =
        if got.length + n ≤ (places 0 (full ++ [cur])).length then
          some (B.made l ((places 0 (full ++ [cur])).take (got.length + n)))
        else none
  | 0, r, got, hat => by
    have hle := hat.within.length_le
    rw [← length_places] at hle
    rw [Nat.add_zero, if_pos hle]
    rfl
  | n + 1, r, got, hat => by
    obtain ⟨⟨res, r'⟩, hres, hnext⟩ := hat.readNext hpub hsmall fuel (by omega)
    rw [replay, hres]
    cases res with
    | none =>
      have hall := congrArg List.length hnext.2
      rw [← length_places] at hall
      rw [if_neg (by omega)]
      rfl
    | some data =>
      obtain ⟨hmapped, hoffset⟩ := readNext_behind hres
      have hlast : At maxFileSize d full cur r' (got ++ [data]) := hnext
      have hlen : (got ++ [data]).length = got.length + 1 := List.length_append
      show B.replay l d fuel n r' _ = _
      rw [update_eq_enter hlast hmapped hoffset, ← made_succ (hlast.place hmapped hoffset).1, ← hlen,
        replay_eq hpub hsmall hfuel hlast, hlen, Nat.add_assoc, Nat.add_comm 1 n]

/-- The first records of the journal. -/
theorem replay_first (hpub : Published maxFileSize d full cur) (hsmall : full.length < 2 ^ 32) {fuel : Nat}
    (hfuel : full.length + 1 < fuel) (n : Nat) :
    B.replay l d fuel n (.create d) B.empty =
      if n ≤ (places 0 (full ++ [cur])).length then
        some (B.made l ((places 0 (full ++ [cur])).take n))
      else none := by
  have hopen : At maxFileSize d full cur (.create d) [] := At.open hpub _ (Nat.zero_le _)
  have hall := replay_eq (B := B) (l := l) (n := n) hpub hsmall hfuel hopen
  rw [List.length_nil, Nat.zero_add] at hall
  exact hall

/-- What has been stored is a stretch of whole records. -/
theorem Inv.whole (h : Inv B l maxFileSize st full cur) (hsmall : st.journal.rolled < 2 ^ 32) :
    B.Whole l st := by
  intro fuel hfuel
  obtain ⟨n, m, hle, hdisk, hview, -⟩ := h.stored
  rw [h.written.rolled] at hsmall hfuel
  have hpub := h.written.published
  refine ⟨n, m, _, _, hle, ?_, ?_, hdisk.whole, hview.whole⟩
  · rw [replay_first hpub hsmall hfuel, if_pos hdisk.within]
  · rw [replay_first hpub hsmall hfuel, if_pos hview.within]

end Steps

end Store

/-- Every record leaves all of its effects or none, and none is passed over, as long as each record
does and each start finds its offset. -/
theorem records_whole {l : ResponseLayout} {maxFileSize : Nat} (hsize : maxFileSize - 8 < 2 ^ 32) :
    (∀ st, SQLiteClientDatabase.store.Run SQLiteClientDatabase.store.Safe l maxFileSize st →
      st.journal.rolled < 2 ^ 32 → SQLiteClientDatabase.store.Whole l st) ∧
    (∀ st, PostgresClientDatabase.store.Run PostgresClientDatabase.store.Safe l maxFileSize st →
      st.journal.rolled < 2 ^ 32 → PostgresClientDatabase.store.Whole l st) := by
  constructor
  · intro st hrun hsmall
    obtain ⟨full, cur, hinv⟩ := hrun.inv hsmall hsize
    exact hinv.whole hsmall
  · intro st hrun hsmall
    obtain ⟨full, cur, hinv⟩ := hrun.inv hsmall hsize
    exact hinv.whole hsmall

/-! ## A journal of equal records -/

/-- The response of `sampleRecord 1`. -/
def sampleResponse : OrderResponse := sampleLayout.decode ((sampleRecord 1).take sampleLayout.size)

namespace Store

section EqualRecords

variable {γ σ ε : Type} {B : Store γ σ ε} {K : Poller γ → Attempt → Prop} {maxFileSize n : Nat} {sys : Sys}

/-- What the writer does without the process. -/
theorem Run.of_journal (h : Sys.Run maxFileSize sys) :
    B.Run K sampleLayout maxFileSize ⟨sys, .down, B.init, false⟩ := by
  induction h with
  | init => exact .init
  | step _ hstep ih => exact ih.step (.journal hstep)

/-- The process is started, and nothing is saved. -/
theorem Run.start {c : γ} {b : Bool} (h : B.Run K sampleLayout maxFileSize ⟨sys, .down, c, b⟩)
    (hzero : B.getLastLogOffset (B.disk c) = 0) (hK : K ⟨sys, .down, c, b⟩ (.start true)) :
    B.Run K sampleLayout maxFileSize ⟨sys, .polling (.create sys.dir), c, false⟩ := by
  have hstart := h.step (.start true rfl hK)
  dsimp only at hstart
  rw [if_pos rfl, hzero] at hstart
  exact hstart

variable (hsys : Sys.Run maxFileSize sys) (hrolled : sys.rolled = 0)
  (happended : sys.appended = List.replicate n (sampleRecord 1))

include hsys hrolled happended

/-- The process reads the next record and tries to apply it. -/
theorem Run.next {c : γ} {b : Bool} {r : MmapReader} {j : Nat} (hj : j < n)
    (hrun : B.Run K sampleLayout maxFileSize ⟨sys, .polling r, c, b⟩)
    (hat : At maxFileSize sys.dir [] (List.replicate n (sampleRecord 1)) r (List.replicate j (sampleRecord 1)))
    {f : Fates} (hK : ∀ r', K ⟨sys, .applying r' (sampleRecord 1), c, b⟩ (.record f sampleResponse)) :
    ∃ r', B.Run K sampleLayout maxFileSize ⟨sys, .polling r',
        B.attempt c f sampleResponse (globalOffset 0 ((j + 1) * 72)), b || B.idle c f sampleResponse⟩ ∧
      At maxFileSize sys.dir [] (List.replicate n (sampleRecord 1)) r'
        (List.replicate (j + 1) (sampleRecord 1)) := by
  obtain ⟨r', hres, hlast, hmapped, hoffset, hplace⟩ := next_record hsys hrolled happended hj hat
  have hlong : sampleLayout.size ≤ (sampleRecord 1).length := by decide
  have hcast : sampleLayout.cast sys.dir r' (sampleRecord 1).length = sampleResponse :=
    cast_eq hlast hmapped hoffset hlong
  have hupdate := (hrun.step (.read rfl hres)).step (.update (f := f) rfl hlong (by
    rw [hcast]
    exact hK r'))
  dsimp only at hupdate
  rw [hcast, hplace] at hupdate
  refine ⟨r', hupdate, ?_⟩
  rw [List.replicate_succ']
  exact hlast

/-- A store that holds an offset or an entry that no number of the records leads to. -/
theorem not_whole {st : Poller γ} (hst : st.journal = sys) (e : ε → Bool)
    (hdisk : e (B.effects (B.disk st.conn)) = true)
    (hmade : ∀ k, k ≤ n → e (B.effects (B.made sampleLayout
      ((places 0 ([] ++ [List.replicate n (sampleRecord 1)])).take k))) = false) :
    ¬ B.Whole sampleLayout st := by
  intro hwhole
  obtain ⟨k, -, a, -, -, hreplay, -, heffects, -⟩ := hwhole 2 (by rw [hst, hrolled]; decide)
  have hpub := (written_records hsys hrolled happended).published
  rw [hst, replay_first hpub (by decide) (by decide)] at hreplay
  split at hreplay
  · rename_i hk
    rw [length_places, List.flatten_nil, List.nil_append, List.length_replicate] at hk
    have hfalse := hmade k hk
    rw [Option.some.inj hreplay, ← heffects, hdisk] at hfalse
    cases hfalse
  · cases hreplay

end EqualRecords

end Store

/-- Everything succeeds. -/
def allDone : Fates := ⟨.done, .done, .done, .done, .done, .done, .done, .done, .done⟩

/-- Nothing succeeds. -/
def allFailed : Fates := ⟨.failed, .failed, .failed, .failed, .failed, .failed, .failed, .failed, .failed⟩

/-- Two records. Everything fails at the first, the process goes down, and is started again. -/
theorem Store.sample_run {γ σ ε : Type} (B : Store γ σ ε)
    (hidle : B.idle B.init allFailed sampleResponse = true)
    (hzero : B.getLastLogOffset (B.disk (B.close (B.attempt B.init allFailed sampleResponse 72))) = 0)
    (hfirst : B.holds (B.close (B.attempt B.init allFailed sampleResponse 72)) allDone sampleResponse = true)
    (hnot : B.idle (B.close (B.attempt B.init allFailed sampleResponse 72)) allDone sampleResponse = false)
    (hsecond : B.holds (B.attempt (B.close (B.attempt B.init allFailed sampleResponse 72)) allDone
      sampleResponse 72) allDone sampleResponse = true) :
    ∃ st, B.Run B.Safe sampleLayout 4096 st ∧ st.journal.rolled = 0 ∧
      st.conn = B.attempt (B.attempt (B.close (B.attempt B.init allFailed sampleResponse 72)) allDone
        sampleResponse 72) allDone sampleResponse 144 := by
  obtain ⟨sys, hsys, -, hrolled, happended⟩ :=
    run_records (show 4096 < 2 ^ 63 by decide) 2 (by decide)
  have hpub := (written_records hsys hrolled happended).published
  have hat : At 4096 sys.dir [] (List.replicate 2 (sampleRecord 1)) (.create sys.dir)
      (List.replicate 0 (sampleRecord 1)) := At.open hpub _ (Nat.zero_le _)
  have hinit : B.getLastLogOffset (B.disk B.init) = 0 := by
    rw [B.disk_init, B.offset_empty]
  have hstart := (Run.of_journal (K := B.Safe) hsys).start hinit (Or.inl rfl)
  obtain ⟨r, hrun, -⟩ := hstart.next (f := allFailed) hsys hrolled happended (by decide) hat
    fun _ => Or.inr hidle
  have hagain := (hrun.step .crash).start hzero (Or.inl rfl)
  obtain ⟨r₁, hrun₁, hat₁⟩ := hagain.next (f := allDone) hsys hrolled happended (by decide) hat
    fun _ => Or.inl ⟨hfirst, rfl⟩
  obtain ⟨r₂, hrun₂, -⟩ := hrun₁.next (f := allDone) hsys hrolled happended (by decide) hat₁
    fun _ => Or.inl ⟨hsecond, hnot⟩
  exact ⟨_, hrun₂, hrolled, rfl⟩

/-- With SQLite and with Postgres both records are applied in the end. -/
theorem sample_whole :
    (∃ st, SQLiteClientDatabase.store.Run SQLiteClientDatabase.store.Safe sampleLayout 4096 st ∧
      st.conn.disk.oSeqNum 1 = 2 ∧ SQLiteClientDatabase.store.Whole sampleLayout st) ∧
    ∃ st, PostgresClientDatabase.store.Run PostgresClientDatabase.store.Safe sampleLayout 4096 st ∧
      st.conn.clientLogOffsets.lookup (1, 2) = some 144 ∧ PostgresClientDatabase.store.Whole sampleLayout st := by
  constructor
  · obtain ⟨st, hrun, hrolled, hconn⟩ := SQLiteClientDatabase.store.sample_run rfl rfl rfl rfl rfl
    have hwhole := (records_whole (l := sampleLayout) (by decide)).1 st hrun (by rw [hrolled]; decide)
    refine ⟨st, hrun, ?_, hwhole⟩
    rw [hconn]
    rfl
  · obtain ⟨st, hrun, hrolled, hconn⟩ := PostgresClientDatabase.store.sample_run rfl rfl rfl rfl rfl
    have hwhole := (records_whole (l := sampleLayout) (by decide)).2 st hrun (by rw [hrolled]; decide)
    refine ⟨st, hrun, ?_, hwhole⟩
    rw [hconn]
    rfl

/-- Two records. With SQLite the statement that counts the message fails for the first of them, and
the rest of it is committed: no number, and an entry under the number 0. With Postgres nothing is
left of the first, and the second is saved in its place. -/
theorem failing_statement_loses_record :
    (∃ st, SQLiteClientDatabase.store.Run (fun _ _ => True) sampleLayout 4096 st ∧
      st.journal.rolled = 0 ∧ st.conn.disk.oSeqNum 1 = 0 ∧ st.conn.disk.getLastLogOffset = 72 ∧
      ¬ SQLiteClientDatabase.store.Whole sampleLayout st) ∧
    ∃ st, PostgresClientDatabase.store.Run (fun _ _ => True) sampleLayout 4096 st ∧
      st.journal.rolled = 0 ∧ st.conn.clientLogOffsets.lookup (1, 1) = some 144 ∧
      ¬ PostgresClientDatabase.store.Whole sampleLayout st := by
  obtain ⟨sys, hsys, -, hrolled, happended⟩ :=
    run_records (show 4096 < 2 ^ 63 by decide) 2 (by decide)
  have hpub := (written_records hsys hrolled happended).published
  have hat : At 4096 sys.dir [] (List.replicate 2 (sampleRecord 1)) (.create sys.dir)
      (List.replicate 0 (sampleRecord 1)) := At.open hpub _ (Nat.zero_le _)
  have hmade : ∀ P : Nat → Prop, P 0 → P 1 → P 2 → ∀ k, k ≤ 2 → P k := by
    intro P h0 h1 h2 k hk
    match k, hk with
    | 0, _ => exact h0
    | 1, _ => exact h1
    | 2, _ => exact h2
  constructor
  · have hstart := (Store.Run.of_journal (B := SQLiteClientDatabase.store) (K := fun _ _ => True) hsys).start
      rfl trivial
    obtain ⟨r, hrun, -⟩ := hstart.next (f := { allDone with seq := .failed }) hsys hrolled happended
      (by decide) hat fun _ => trivial
    refine ⟨_, hrun, hrolled, rfl, rfl, ?_⟩
    refine Store.not_whole hsys hrolled happended rfl (fun e => (e.clientLogOffsets.lookup (1, 0)).isSome)
      rfl (hmade _ rfl rfl rfl)
  · have hstart := (Store.Run.of_journal (B := PostgresClientDatabase.store) (K := fun _ _ => True) hsys).start
      rfl trivial
    obtain ⟨r, hrun, hat'⟩ := hstart.next (f := allFailed) hsys hrolled happended (by decide) hat
      fun _ => trivial
    obtain ⟨r', hrun', -⟩ := hrun.next (f := allDone) hsys hrolled happended (by decide) hat'
      fun _ => trivial
    refine ⟨_, hrun', hrolled, rfl, ?_⟩
    refine Store.not_whole hsys hrolled happended rfl
      (fun e => e.clientLogOffsets.lookup (1, 1) = some 144) rfl (hmade _ rfl rfl rfl)

end Exchange
