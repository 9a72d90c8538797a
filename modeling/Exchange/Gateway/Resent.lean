import Exchange.Gateway.Entries
import Exchange.Gateway.Registry

/-!
# Numbers of responses that are sent again

An execution response is numbered twice: by the session it is sent on, when the gateway reads
it from the journal, and by the database, when the polling thread does. A client that logs on
again gets what the database reads back at its entries above the acknowledged number, numbered
from there on.

A session counts everything that is sent on it, and starts from one above the number of the
database, for its Ready. The database counts the records of the client. What a session has
counted is written into the database when it ends.

Where the two counts agree, what is read back is still wrong: an entry leads to the record behind
its own, so a response of the client, if the client gets it again, is numbered one too low
(`resent_one_less`).

A `Twin` is the process with the journal that both threads read. `sent` has, for each record
the gateway has read, the session it was sent on and its number; `stores.filed` has a filing for
each record that the polling thread has processed; `resent` has what logons have read back.
-/

namespace Exchange

open Lib

namespace Gateway

/-! ## Two readers of one journal -/

/-- The databases there are entries in. -/
inductive Backend
  | memory
  | sqlite
  deriving DecidableEq, Repr

/-- A record that a logon has read back: what the logon said, how many records the gateway had
read by then, the slot of the record, and the number it was sent under. -/
structure Resend where
  clientId : UInt32
  ackSeqNum : Nat
  read : Nat
  slot : Nat
  number : Nat
  deriving DecidableEq, Repr

/-- The process, with its databases and the journal. `backend` is the one it asks; the other is
told the same. -/
structure Twin (σ : Type) where
  backend : Backend
  service : Service σ
  stores : Stores
  journal : List OrderResponse
  sent : List (Option (σ × Nat))
  resent : List Resend

/-- What can happen next. -/
inductive Move (σ : Type)
  /-- An engine puts a record in the slot its writer has come to. -/
  | append (slot : Nat) (resp : OrderResponse)
  | message (client : σ) (request : ClientRequest) (answers : Answers)
  | close (client : σ)
  | writeFailed (client : σ)
  /-- The gateway reads its next record. -/
  | respond
  /-- The polling thread processes its next record. -/
  | update
  deriving DecidableEq, Repr

/-- The records of a client among these. -/
def recordsOf (clientId : UInt32) (rs : List OrderResponse) : Nat := rs.countP (·.clientId = clientId)

namespace Twin

variable {σ : Type} [DecidableEq σ]

/-- The session a record is sent on, and its number there. -/
def reply (g : Service σ) (resp : OrderResponse) : Option (σ × Nat) :=
  (g.manager.handleExecutionResponse resp).2.map fun client => (client, g.outboundSeqNum client + 1)

/-- The entries of a client above an acknowledged number. -/
def entries (t : Twin σ) (clientId : UInt32) (ackSeqNum : Nat) : List (Nat × Nat) :=
  match t.backend with
  | .memory => t.stores.memory.entriesSince clientId ackSeqNum
  | .sqlite => t.stores.sqlite.entriesSince clientId ackSeqNum

/-- `getResponsesSince`, with the slots it reads. -/
def readBack (t : Twin σ) (clientId : UInt32) (ackSeqNum : Nat) : List (Nat × OrderResponse) :=
  readAt t.journal (t.entries clientId ackSeqNum)

/-- A logon gets what its client has missed from the database. -/
def answer (t : Twin σ) (request : ClientRequest) (answers : Answers) : Answers :=
  match request.data with
  | .admin .logOn clientId ackSeqNum =>
    { answers with missed := (t.readBack clientId ackSeqNum).map Prod.snd }
  | _ => answers

/-- What a logon that is accepted sends again, numbered as `Service.resend` does. -/
def resends (t : Twin σ) (request : ClientRequest) : List Resend :=
  match request.data with
  | .admin .logOn clientId ackSeqNum =>
    if t.service.accepts clientId request.msgSeqNum ackSeqNum then
      ((t.readBack clientId ackSeqNum).zipIdx (ackSeqNum + 1)).map fun x =>
        ⟨clientId, ackSeqNum, t.sent.length, x.1.1, x.2⟩
    else []
  | _ => []

/-- What a move sends again. -/
def resentBy (t : Twin σ) : Move σ → List Resend
  | .message _ request _ => t.resends request
  | _ => []

def happens (t : Twin σ) (e : Event σ) : Twin σ :=
  { t with
    service := t.service.step e
    stores := t.stores.callAll (t.service.calls e) }

def step (t : Twin σ) : Move σ → Twin σ
  | .append slot resp =>
    { t with
      journal := if slot < t.journal.length then t.journal.set slot resp else t.journal ++ [resp] }
  | .message client request answers =>
    { t.happens (.message client request (t.answer request answers)) with
      resent := t.resent ++ t.resends request }
  | .close client => t.happens (.close client)
  | .writeFailed client => t.happens (.writeFailed client)
  | .respond =>
    match t.journal[t.sent.length]? with
    | none => t
    | some resp => { t.happens (.respond resp) with sent := t.sent ++ [reply t.service resp] }
  | .update =>
    match t.journal[t.stores.filed.length]? with
    | none => t
    -- `get_offset` comes after `read_next`: it is the slot behind the record
    | some resp => t.happens (.updated resp (t.stores.filed.length + 1))

/-- A first start, on an empty database and an empty journal. -/
def start (b : Backend) (m : ClientManager σ) : Twin σ :=
  ⟨b, .start m (fun _ => 0) fun _ => 0, .empty, [], [], []⟩

def run (t : Twin σ) (moves : List (Move σ)) : Twin σ := moves.foldl step t

/-- Every move of a run meets `P` in the state it is made in. -/
def Along (P : Twin σ → Move σ → Prop) : Twin σ → List (Move σ) → Prop
  | _, [] => True
  | t, move :: moves => P t move ∧ Along P (t.step move) moves

/-- A weaker condition holds along the same moves. -/
theorem Along.mono {P Q : Twin σ → Move σ → Prop} (hPQ : ∀ t move, P t move → Q t move) {t : Twin σ}
    {moves : List (Move σ)} (h : Along P t moves) : Along Q t moves := by
  induction moves generalizing t with
  | nil => trivial
  | cons move moves ih => exact ⟨hPQ t move h.1, ih h.2⟩

/-- What every move that meets `P` preserves holds after a run. -/
theorem Along.preserves {P : Twin σ → Move σ → Prop} {I : Twin σ → Prop}
    (hstep : ∀ t move, I t → P t move → I (t.step move)) {t : Twin σ} {moves : List (Move σ)}
    (h : Along P t moves) (hI : I t) : I (t.run moves) := by
  induction moves generalizing t with
  | nil => exact hI
  | cons move moves ih => exact ih h.2 (hstep t move hI h.1)

/-- A record of the client that was sent has the number it is filed under, and keeps it when it is
sent again after a later logon that does not acknowledge it. -/
def Keeps (t : Twin σ) (clientId : UInt32) : Prop :=
  ∀ (i : Nat) (resp : OrderResponse) (s : σ) (n : Nat), t.journal[i]? = some resp →
    resp.clientId = clientId → t.sent[i]? = some (some (s, n)) →
      (∀ f, t.stores.filed[i]? = some f → f.seqNum = n) ∧
      ∀ x ∈ t.resent, x.slot = i → i < x.read → x.ackSeqNum < n → x.number = n

/-- A session that ends leaves the number of its client as it is. -/
def EndsEven (t : Twin σ) (clientId : UInt32) (client : σ) : Prop :=
  t.service.manager.clientId client = clientId → clientId ≠ 0 →
    t.service.manager.clients clientId = some client →
      t.service.outboundSeqNum client = t.service.oSeqNums clientId

/-- A session that a record is sent on has counted the records of the client so far, and nothing
but `update_on_execution` moves the number the database has for it: no logon of the client is
refused while it has no session, and no session of it ends at another number. No engine puts a
record over another. -/
def Even (clientId : UInt32) (t : Twin σ) : Move σ → Prop
  | .append slot _ => slot = t.journal.length
  | .respond => ∀ resp s, t.journal[t.sent.length]? = some resp → resp.clientId = clientId →
      (t.service.manager.handleExecutionResponse resp).2 = some s →
        t.service.outboundSeqNum s = recordsOf clientId (t.journal.take t.sent.length)
  | .message _ ⟨.admin .logOn id ackSeqNum, msgSeqNum⟩ _ =>
    id = clientId → t.service.manager.clients clientId = none →
      t.service.accepts clientId msgSeqNum ackSeqNum = true
  | .message client ⟨.admin .logOut _ _, _⟩ _ => t.EndsEven clientId client
  | .close client => t.service.closed client = false → t.EndsEven clientId client
  | _ => True

/-- A client that logs on has acknowledged each of its processed records that a record of this
client follows in the journal, if that one has been read by the gateway. -/
def Unfollowed (clientId : UInt32) (t : Twin σ) : Move σ → Prop
  | .message _ ⟨.admin .logOn id ackSeqNum, msgSeqNum⟩ _ =>
    t.service.accepts id msgSeqNum ackSeqNum = true →
      ∀ j f, t.stores.filed[j]? = some f → f.clientId = id → ackSeqNum < f.seqNum →
        j + 1 < t.sent.length → ∀ resp, t.journal[j + 1]? = some resp → resp.clientId ≠ clientId
  | _ => True

/-- The number of a reply is the one the message bears. -/
theorem log_respond (g : Service σ) (resp : OrderResponse) :
    (g.step (.respond resp)).log =
      g.log ++ (reply g resp).toList.map fun r => .sent r.1 ⟨.order resp, r.2⟩ := by
  show (g.handleExecutionResponse resp).log = _
  unfold Service.handleExecutionResponse reply
  dsimp only
  cases (g.manager.handleExecutionResponse resp).2 with
  | none => exact (List.append_nil _).symm
  | some client => rfl

/-- A client's records, with one more slot. -/
theorem recordsOf_take_succ {c : UInt32} {rs : List OrderResponse} {i : Nat} {resp : OrderResponse}
    (h : rs[i]? = some resp) :
    recordsOf c (rs.take (i + 1)) = recordsOf c (rs.take i) + if resp.clientId = c then 1 else 0 := by
  unfold recordsOf
  rw [List.take_add_one, h, List.countP_append]
  by_cases hid : resp.clientId = c
  · simp [hid]
  · simp [hid]

/-- The last of a list, or one of those before it. -/
theorem getElem?_snoc {α : Type} {l : List α} {i : Nat} {a b : α} (h : (l ++ [a])[i]? = some b) :
    l[i]? = some b ∨ (i = l.length ∧ b = a) := by
  by_cases hi : i < l.length
  · rw [List.getElem?_append_left hi] at h
    exact Or.inl h
  · have hlt := (List.getElem?_eq_some_iff.mp h).1
    rw [List.length_append, List.length_singleton] at hlt
    obtain rfl : i = l.length := by omega
    rw [List.getElem?_concat_length] at h
    exact Or.inr ⟨rfl, (Option.some.inj h).symm⟩

/-- An append at the end adds one record. -/
theorem step_append {t : Twin σ} {slot : Nat} {resp : OrderResponse} (hslot : slot = t.journal.length) :
    t.step (.append slot resp) = { t with journal := t.journal ++ [resp] } := by
  unfold step
  dsimp only
  rw [if_neg (by omega)]

/-- Both readers have counted the records of the client, and nothing else. -/
structure Counted (c : UInt32) (t : Twin σ) : Prop where
  mirrors : t.service.Mirrors t.stores
  alike : ∀ id, t.stores.memory.getClientOSeqNum id = t.stores.sqlite.oSeqNum id
  read : t.sent.length ≤ t.journal.length
  processed : t.stores.filed.length ≤ t.journal.length
  number : t.stores.sqlite.oSeqNum c = recordsOf c (t.journal.take t.stores.filed.length)
  gapless : t.stores.Gapless c
  sourced : t.stores.Sourced
  places : ∀ (i : Nat) (f : Filing), t.stores.filed[i]? = some f →
    f.logOffset = i + 1 ∧ ∃ r, t.journal[i]? = some r ∧ r.clientId = f.clientId
  sent : ∀ (i : Nat) (resp : OrderResponse) (s : σ) (n : Nat), t.journal[i]? = some resp →
    resp.clientId = c → t.sent[i]? = some (some (s, n)) → n = recordsOf c (t.journal.take (i + 1))
  filed : ∀ (i : Nat) (resp : OrderResponse) (f : Filing), t.journal[i]? = some resp →
    resp.clientId = c → t.stores.filed[i]? = some f →
      f.seqNum = recordsOf c (t.journal.take (i + 1)) ∧
      t.stores.memory.logOffset c f.seqNum = some f.logOffset ∧
      t.stores.sqlite.clientLogOffsets.lookup (c, f.seqNum) = some f.logOffset

namespace Counted

variable {c : UInt32} {t : Twin σ}

omit [DecidableEq σ] in
/-- At the start nothing has been counted. -/
theorem start (b : Backend) (m : ClientManager σ) (c : UInt32) : Counted c (start b m) := by
  refine ⟨⟨fun _ => rfl, fun _ hf => absurd hf List.not_mem_nil⟩, fun _ => rfl, le_rfl, le_rfl, rfl,
    ⟨fun n => ?_, fun n => ?_⟩, Stores.sourced_empty, fun i f hf => ?_, fun i resp s n hi => ?_,
    fun i resp f hi => ?_⟩
  · exact ⟨fun h => absurd rfl h, fun h => absurd (h.1.trans h.2) (Nat.not_succ_le_zero 0)⟩
  · exact ⟨fun h => absurd rfl h, fun h => absurd (h.1.trans h.2) (Nat.not_succ_le_zero 0)⟩
  · cases hf
  · cases hi
  · cases hi

/-- Records that are added come behind those that were read. -/
theorem append (h : Counted c t) {slot : Nat} {resp : OrderResponse} (heven : t.Even c (.append slot resp)) :
    Counted c (t.step (.append slot resp)) := by
  have hget : ∀ i, i < t.journal.length → (t.journal ++ [resp])[i]? = t.journal[i]? :=
    fun i hi => List.getElem?_append_left hi
  have hlen : t.journal.length ≤ (t.journal ++ [resp]).length := by
    rw [List.length_append]
    exact Nat.le_add_right _ _
  rw [step_append heven]
  refine ⟨h.mirrors, h.alike, h.read.trans hlen, h.processed.trans hlen, ?_, h.gapless, h.sourced,
    fun i f hf => ?_, fun i r s n hi hid hs => ?_, fun i r f hi hid hf => ?_⟩
  · show _ = recordsOf c ((t.journal ++ [resp]).take t.stores.filed.length)
    rw [List.take_append_of_le_length h.processed]
    exact h.number
  · have hlt : i < t.journal.length := (List.getElem?_eq_some_iff.mp hf).1.trans_le h.processed
    obtain ⟨hplace, r, hr, hid⟩ := h.places i f hf
    exact ⟨hplace, r, (hget i hlt).trans hr, hid⟩
  · have hlt : i < t.journal.length := (List.getElem?_eq_some_iff.mp hs).1.trans_le h.read
    show n = recordsOf c ((t.journal ++ [resp]).take (i + 1))
    rw [List.take_append_of_le_length hlt]
    exact h.sent i r s n ((hget i hlt).symm.trans hi) hid hs
  · have hlt : i < t.journal.length := (List.getElem?_eq_some_iff.mp hf).1.trans_le h.processed
    show f.seqNum = recordsOf c ((t.journal ++ [resp]).take (i + 1)) ∧ _
    rw [List.take_append_of_le_length hlt]
    exact h.filed i r f ((hget i hlt).symm.trans hi) hid hf

/-- What the polling thread does not do, if it leaves the number of the client alone. -/
theorem happens (h : Counted c t) {e : Event σ} (he : ∀ resp logOffset, e ≠ .updated resp logOffset)
    (hnumber : (t.service.step e).oSeqNums c = t.service.oSeqNums c) : Counted c (t.happens e) := by
  obtain ⟨hsqlite, hmemory, hfiled⟩ := t.stores.callAll_entries (t.service.calls_file_nothing he)
  have hmirrors := h.mirrors.step e
  have hsame : (t.stores.callAll (t.service.calls e)).sqlite.oSeqNum c = t.stores.sqlite.oSeqNum c := by
    rw [← hmirrors.numbers, ← h.mirrors.numbers]
    exact hnumber
  refine ⟨hmirrors, Stores.count_callAll h.alike _, h.read, ?_, ?_,
    h.gapless.of_entries hsqlite hmemory hsame, h.sourced.of_entries hsqlite hmemory hfiled, ?_, h.sent, ?_⟩
  · show (t.stores.callAll (t.service.calls e)).filed.length ≤ _
    rw [hfiled]
    exact h.processed
  · show (t.stores.callAll (t.service.calls e)).sqlite.oSeqNum c =
      recordsOf c (t.journal.take (t.stores.callAll (t.service.calls e)).filed.length)
    rw [hsame, hfiled]
    exact h.number
  · show ∀ (i : Nat) (f : Filing), (t.stores.callAll (t.service.calls e)).filed[i]? = some f → _
    rw [hfiled]
    exact h.places
  · have hold := h.filed
    unfold InMemoryClientDatabase.logOffset at hold ⊢
    show ∀ (i : Nat) (resp : OrderResponse) (f : Filing), t.journal[i]? = some resp →
      resp.clientId = c → (t.stores.callAll (t.service.calls e)).filed[i]? = some f →
        _ ∧ ((t.stores.callAll (t.service.calls e)).memory.logOffsets.lookup c).bind _ = _ ∧
          (t.stores.callAll (t.service.calls e)).sqlite.clientLogOffsets.lookup _ = _
    rw [hfiled, hmemory, hsqlite]
    exact hold

/-- A record that is sent on a session that has counted the ones before it. -/
theorem respond (h : Counted c t) (heven : t.Even c .respond) : Counted c (t.step .respond) := by
  unfold step
  dsimp only
  cases hnext : t.journal[t.sent.length]? with
  | none => exact h
  | some resp =>
    have hstep : Counted c (t.happens (.respond resp)) := by
      refine h.happens (fun _ _ heq => by cases heq) ?_
      show (t.service.handleExecutionResponse resp).oSeqNums c = _
      unfold Service.handleExecutionResponse
      dsimp only
      split <;> rfl
    refine ⟨hstep.mirrors, hstep.alike, ?_, hstep.processed, hstep.number, hstep.gapless, hstep.sourced,
      hstep.places, fun i r s n hi hid hs => ?_, hstep.filed⟩
    · show (t.sent ++ [reply t.service resp]).length ≤ t.journal.length
      rw [List.length_append]
      exact (List.getElem?_eq_some_iff.mp hnext).1
    · have hs : (t.sent ++ [reply t.service resp])[i]? = some (some (s, n)) := hs
      have hi : t.journal[i]? = some r := hi
      show n = recordsOf c (t.journal.take (i + 1))
      rcases getElem?_snoc hs with hs | ⟨rfl, hreply⟩
      · exact h.sent i r s n hi hid hs
      · -- the record that was read now
        obtain rfl := Option.some.inj (hnext.symm.trans hi)
        obtain ⟨client, hclient, heq⟩ := Option.map_eq_some_iff.mp hreply.symm
        obtain ⟨rfl, rfl⟩ := Prod.mk.inj heq
        rw [recordsOf_take_succ hi, if_pos hid, heven resp client hnext hid hclient]

/-- The polling thread files the next record under the next number of its client. -/
theorem update (h : Counted c t) : Counted c (t.step .update) := by
  unfold step
  dsimp only
  cases hnext : t.journal[t.stores.filed.length]? with
  | none => exact h
  | some resp =>
    dsimp only
    have hlt : t.stores.filed.length < t.journal.length := (List.getElem?_eq_some_iff.mp hnext).1
    have hcount := recordsOf_take_succ (c := c) hnext
    have hfiled : (t.happens (.updated resp (t.stores.filed.length + 1))).stores.filed =
        t.stores.filed ++ [⟨resp.clientId, t.stores.sqlite.oSeqNum resp.clientId + 1,
          t.stores.filed.length + 1⟩] := rfl
    refine ⟨h.mirrors.step (.updated resp _), Stores.count_callAll h.alike _, h.read, ?_, ?_,
      h.gapless.update h.alike resp _, h.sourced.update h.alike resp _, fun i f hf => ?_, h.sent,
      fun i r f hi hid hf => ?_⟩
    · rw [hfiled, List.length_append]
      exact hlt
    · rw [hfiled, List.length_append]
      show (t.stores.call (.updateOnExecution resp (t.stores.filed.length + 1))).sqlite.oSeqNum c =
        recordsOf c (t.journal.take (t.stores.filed.length + 1))
      rw [Stores.oSeqNum_update, hcount, h.number]
      by_cases hid : c = resp.clientId
      · rw [if_pos hid, if_pos hid.symm]
      · rw [if_neg hid, if_neg fun heq => hid heq.symm]
        rfl
    · rw [hfiled] at hf
      rcases getElem?_snoc hf with hf | ⟨rfl, rfl⟩
      · exact h.places i f hf
      · exact ⟨rfl, resp, hnext, rfl⟩
    · show f.seqNum = recordsOf c (t.journal.take (i + 1)) ∧
        (t.stores.call (.updateOnExecution resp (t.stores.filed.length + 1))).memory.logOffset c f.seqNum = _ ∧
        (t.stores.call (.updateOnExecution resp
          (t.stores.filed.length + 1))).sqlite.clientLogOffsets.lookup (c, f.seqNum) = _
      rw [Stores.memory_update h.alike, Stores.sqlite_update fun _ => h.gapless.unused]
      have hi : t.journal[i]? = some r := hi
      rw [hfiled] at hf
      rcases getElem?_snoc hf with hf | ⟨rfl, rfl⟩
      · -- an earlier one, whose number is taken
        obtain ⟨hseq, hmemory, hsqlite⟩ := h.filed i r f hi hid hf
        have hle := ((h.gapless.memory f.seqNum).mp (by rw [hmemory]; exact Option.some_ne_none _)).2
        have hold : ¬ (c = resp.clientId ∧ f.seqNum = t.stores.sqlite.oSeqNum resp.clientId + 1) := by
          intro hnew
          rw [← hnew.1] at hnew
          omega
        rw [if_neg hold, if_neg hold]
        exact ⟨hseq, hmemory, hsqlite⟩
      · obtain rfl := Option.some.inj (hnext.symm.trans hi)
        dsimp only
        rw [if_pos ⟨hid.symm, rfl⟩, if_pos ⟨hid.symm, rfl⟩, hcount, if_pos hid, hid, h.number]
        exact ⟨rfl, rfl, rfl⟩

/-- A session that ends even leaves the number alone. -/
theorem number_logout (client : σ) (heven : t.EndsEven c client) :
    (t.service.handleClientLogout client).oSeqNums c = t.service.oSeqNums c := by
  rw [Service.oSeqNums_handleClientLogout]
  split
  · rename_i hreg
    by_cases hid : t.service.manager.clientId client = c
    · rw [hid, Function.update_self]
      rw [hid] at hreg
      exact heven hid hreg.1 hreg.2
    · exact Function.update_of_ne (fun heq => hid heq.symm) _ _
  · rfl

/-- A logon that is not refused to a client without a session leaves the number alone. -/
theorem number_logon (client : σ) (id : UInt32) (n ack : Nat) (missed : List OrderResponse)
    (heven : id = c → t.service.manager.clients c = none → t.service.accepts c n ack = true) :
    (t.service.handleClientLogon client id n ack missed).oSeqNums c = t.service.oSeqNums c := by
  unfold Service.handleClientLogon
  split
  · exact congrFun (Service.oSeqNums_takeOver t.service client id) c
  · rename_i hrefused
    unfold Service.rejectLogon
    dsimp only
    cases hreg : t.service.manager.clients id with
    | some old => rfl
    | none =>
      refine Function.update_of_ne (fun heq => ?_) _ _
      subst heq
      exact hrefused (heven rfl hreg)

theorem message (h : Counted c t) {client : σ} {request : ClientRequest} {answers : Answers}
    (heven : t.Even c (.message client request answers)) :
    Counted c (t.step (.message client request answers)) := by
  have hstep : Counted c (t.happens (.message client request (t.answer request answers))) := ?_
  · exact ⟨hstep.mirrors, hstep.alike, hstep.read, hstep.processed, hstep.number, hstep.gapless,
      hstep.sourced, hstep.places, hstep.sent, hstep.filed⟩
  refine h.happens (fun _ _ heq => by cases heq) ?_
  obtain ⟨data, n⟩ := request
  by_cases hadmin : ∃ action id ack, data = .admin action id ack
  · obtain ⟨action, id, ack, rfl⟩ := hadmin
    cases action with
    | logOn => exact number_logon client id n ack _ heven
    | logOut => exact number_logout client heven
    | other code => rfl
  · exact congrFun (Service.Mirrors.oSeqNums_request t.service client
      fun action id ack hdata => hadmin ⟨action, id, ack, hdata⟩) c

theorem close (h : Counted c t) {client : σ} (heven : t.Even c (.close client)) :
    Counted c (t.step (.close client)) := by
  refine h.happens (fun _ _ heq => by cases heq) ?_
  show (t.service.onClose client).oSeqNums c = _
  unfold Service.onClose
  split
  · rfl
  · rename_i hopen
    rw [Service.handleClientLogout_closed t.service client (Function.update t.service.closed client true)]
    exact number_logout client (heven (by simpa using hopen))

theorem step (h : Counted c t) {move : Move σ} (heven : t.Even c move) : Counted c (t.step move) := by
  cases move with
  | append slot resp => exact h.append heven
  | message client request answers => exact h.message heven
  | close client => exact h.close heven
  | writeFailed client => exact h.happens (fun _ _ heq => by cases heq) rfl
  | respond => exact h.respond heven
  | update => exact h.update

omit [DecidableEq σ] in
/-- A record's number is the count of the client's records up to it. -/
theorem entry (h : Counted c t) {n off : Nat} (hf : ⟨c, n, off⟩ ∈ t.stores.filed) :
    ∃ j, off = j + 1 ∧ j < t.journal.length ∧ n = recordsOf c (t.journal.take (j + 1)) := by
  obtain ⟨j, hj⟩ := List.mem_iff_getElem?.mp hf
  obtain ⟨hplace, r, hr, hid⟩ := h.places j _ hj
  exact ⟨j, hplace, (List.getElem?_eq_some_iff.mp hr).1, (h.filed j r _ hr hid hj).1⟩

omit [DecidableEq σ] in
/-- The entries of the client, in the database that is asked. -/
theorem entries_eq (h : Counted c t) (ack : Nat) : ∃ offset : Nat → Option Nat,
    t.entries c ack = rowsAbove offset ack (t.stores.sqlite.oSeqNum c) ∧
      UpTo offset (t.stores.sqlite.oSeqNum c) ∧
      ∀ n off, offset n = some off → ⟨c, n, off⟩ ∈ t.stores.filed := by
  unfold entries
  cases t.backend with
  | memory => exact ⟨_, h.gapless.entries_memory, h.gapless.memory, h.sourced.memory c⟩
  | sqlite => exact ⟨_, h.gapless.entries_sqlite, h.gapless.sqlite, h.sourced.sqlite c⟩

omit [DecidableEq σ] in
/-- A longer journal has no fewer records of the client. -/
theorem recordsOf_take_le {i j : Nat} (hij : i ≤ j) (rs : List OrderResponse) :
    recordsOf c (rs.take i) ≤ recordsOf c (rs.take j) :=
  (List.take_sublist_take_left hij).countP_le

omit [DecidableEq σ] in
/-- What is read back for the client is numbered by its records before. -/
theorem number_readBack (h : Counted c t) {ack : Nat} {x : (Nat × OrderResponse) × Nat}
    (hx : x ∈ (t.readBack c ack).zipIdx (ack + 1)) : x.2 = recordsOf c (t.journal.take x.1.1) := by
  obtain ⟨offset, hentries, hupTo, hfiled⟩ := h.entries_eq ack
  have hsome : ∀ n, 1 ≤ n → n ≤ t.stores.sqlite.oSeqNum c → ∃ off, offset n = some off :=
    fun n h1 hn => Option.ne_none_iff_exists'.mp ((hupTo n).mpr ⟨h1, hn⟩)
  have hrow : offset x.2 = some x.1.1 := by
    unfold readBack at hx
    rw [hentries] at hx
    refine mem_zipIdx_readAt (fun n h1 hn => ?_) hx
    obtain ⟨off, hoff⟩ := hsome n h1 hn
    refine ⟨off, hoff, fun hlast => ?_⟩
    -- the record of the next entry comes behind this one's
    obtain ⟨off', hoff'⟩ := hsome (n + 1) (by omega) hlast
    obtain ⟨j, rfl, -, hj⟩ := h.entry (hfiled _ _ hoff)
    obtain ⟨j', -, hlt, hj'⟩ := h.entry (hfiled _ _ hoff')
    by_contra hno
    have hle := recordsOf_take_le (c := c) (show j' + 1 ≤ j + 1 by omega) t.journal
    omega
  obtain ⟨j, hplace, -, hj⟩ := h.entry (hfiled _ _ hrow)
  rw [hplace]
  exact hj

end Counted

/-! ## What logons have sent again -/

section Journal

variable {c : UInt32} {t : Twin σ} {move : Move σ}

/-- What a move resends is added to what was resent. -/
theorem resent_step (t : Twin σ) (move : Move σ) : (t.step move).resent = t.resent ++ t.resentBy move := by
  cases move with
  | message client request answers => rfl
  | append slot resp => exact (List.append_nil _).symm
  | close client => exact (List.append_nil _).symm
  | writeFailed client => exact (List.append_nil _).symm
  | respond =>
    unfold step
    dsimp only
    split
    · exact (List.append_nil _).symm
    · exact (List.append_nil _).symm
  | update =>
    unfold step
    dsimp only
    split
    · exact (List.append_nil _).symm
    · exact (List.append_nil _).symm

/-- The journal is only ever added to. -/
theorem journal_step (heven : t.Even c move) : ∃ l, (t.step move).journal = t.journal ++ l := by
  cases move with
  | append slot resp => exact ⟨[resp], by rw [step_append heven]⟩
  | message client request answers => exact ⟨[], (List.append_nil _).symm⟩
  | close client => exact ⟨[], (List.append_nil _).symm⟩
  | writeFailed client => exact ⟨[], (List.append_nil _).symm⟩
  | respond =>
    refine ⟨[], ?_⟩
    unfold step
    dsimp only
    split
    · exact (List.append_nil _).symm
    · exact (List.append_nil _).symm
  | update =>
    refine ⟨[], ?_⟩
    unfold step
    dsimp only
    split
    · exact (List.append_nil _).symm
    · exact (List.append_nil _).symm

/-- What holds of each record that is sent again, and goes on holding as the journal grows. -/
theorem resends_step {P : List OrderResponse → Resend → Prop} (hgrow : ∀ l l' x, P l x → P (l ++ l') x)
    (heven : t.Even c move) (hold : ∀ x ∈ t.resent, P t.journal x)
    (hnew : ∀ x ∈ t.resentBy move, P t.journal x) : ∀ x ∈ (t.step move).resent, P (t.step move).journal x := by
  intro x hx
  obtain ⟨l, hl⟩ := journal_step heven
  rw [hl]
  rw [resent_step, List.mem_append] at hx
  rcases hx with hx | hx
  · exact hgrow _ _ _ (hold x hx)
  · exact hgrow _ _ _ (hnew x hx)

omit [DecidableEq σ] in
/-- A record that is sent again is read back by a logon that is accepted. -/
theorem mem_resends {request : ClientRequest} {x : Resend} (hx : x ∈ t.resends request) :
    request.data = .admin .logOn x.clientId x.ackSeqNum ∧
      t.service.accepts x.clientId request.msgSeqNum x.ackSeqNum = true ∧ x.read = t.sent.length ∧
      ∃ resp, ((x.slot, resp), x.number) ∈ (t.readBack x.clientId x.ackSeqNum).zipIdx (x.ackSeqNum + 1) := by
  unfold resends at hx
  split at hx
  · rename_i clientId ackSeqNum hdata
    split at hx
    · rename_i hacc
      obtain ⟨y, hy, rfl⟩ := List.mem_map.mp hx
      exact ⟨hdata, hacc, rfl, y.1.2, hy⟩
    · cases hx
  · cases hx

omit [DecidableEq σ] in
/-- It lies behind a record of the client that logs on, which that client has not acknowledged. -/
theorem Counted.slot_readBack (h : Counted c t) {id : UInt32} {ack k : Nat} {y : Nat × OrderResponse}
    (hy : (y, k) ∈ (t.readBack id ack).zipIdx (ack + 1)) : t.journal[y.1]? = some y.2 ∧
      ∃ j f, y.1 = j + 1 ∧ t.stores.filed[j]? = some f ∧ f.clientId = id ∧ ack < f.seqNum := by
  obtain ⟨⟨seq, hseq⟩, hread⟩ := mem_readAt (List.fst_mem_of_mem_zipIdx hy)
  have hentry : ⟨id, seq, y.1⟩ ∈ t.stores.filed ∧ ack < seq := by
    unfold entries at hseq
    split at hseq
    · obtain ⟨hoff, hack⟩ := InMemoryClientDatabase.mem_entriesSince hseq
      exact ⟨h.sourced.memory _ _ _ hoff, hack⟩
    · obtain ⟨hoff, hack⟩ := SQLiteClientDatabase.mem_entriesSince hseq
      exact ⟨h.sourced.sqlite _ _ _ hoff, hack⟩
  obtain ⟨j, hj⟩ := List.mem_iff_getElem?.mp hentry.1
  exact ⟨hread, j, _, (h.places j _ hj).1, hj, rfl, hentry.2⟩

end Journal

/-- Its slot has a record, and if the client itself logged on, it was numbered by the client's
records before. -/
structure Numbered (c : UInt32) (journal : List OrderResponse) (x : Resend) : Prop where
  slot : x.slot < journal.length
  number : x.clientId = c → x.number = recordsOf c (journal.take x.slot)

theorem Numbered.append {c : UInt32} {x : Resend} (l l' : List OrderResponse) (h : Numbered c l x) :
    Numbered c (l ++ l') x := by
  refine ⟨h.slot.trans_le (by rw [List.length_append]; exact Nat.le_add_right _ _), fun hid => ?_⟩
  rw [List.take_append_of_le_length h.slot.le]
  exact h.number hid

/-- In a run that keeps the counts even, they agree, and so do the numbers of what is sent again
with the records that came before. -/
theorem Along.counted {c : UInt32} {moves : List (Move σ)} (b : Backend) (m : ClientManager σ)
    (h : Along (Even c) (start b m) moves) : Counted c ((start b m).run moves) ∧
      ∀ x ∈ ((start b m).run moves).resent, Numbered c ((start b m).run moves).journal x := by
  refine h.preserves (I := fun t => Counted c t ∧ ∀ x ∈ t.resent, Numbered c t.journal x)
    (fun t move ht heven => ⟨ht.1.step heven, ?_⟩) ⟨Counted.start b m c, fun x hx => absurd hx List.not_mem_nil⟩
  refine resends_step (fun l l' x => Numbered.append l l') heven ht.2 fun x hx => ?_
  cases move with
  | message client request answers =>
    obtain ⟨-, -, -, resp, hread⟩ := mem_resends hx
    obtain ⟨hslot, -⟩ := ht.1.slot_readBack hread
    refine ⟨(List.getElem?_eq_some_iff.mp hslot).1, fun hid => ?_⟩
    rw [hid] at hread
    exact ht.1.number_readBack hread
  | append slot resp => cases hx
  | close client => cases hx
  | writeFailed client => cases hx
  | respond => cases hx
  | update => cases hx

/-- With even counts, a response of the client that it gets again is numbered one too low. -/
theorem resent_one_less {c : UInt32} {moves : List (Move σ)} (b : Backend) (m : ClientManager σ)
    (h : Along (Even c) (start b m) moves) {x : Resend} (hx : x ∈ ((start b m).run moves).resent)
    (hid : x.clientId = c) {resp : OrderResponse} {s : σ} {n : Nat}
    (hresp : ((start b m).run moves).journal[x.slot]? = some resp) (hc : resp.clientId = c)
    (hsent : ((start b m).run moves).sent[x.slot]? = some (some (s, n))) : x.number + 1 = n := by
  obtain ⟨hcounted, hnumbered⟩ := h.counted b m
  rw [hcounted.sent _ resp s n hresp hc hsent, recordsOf_take_succ hresp, if_pos hc,
    (hnumbered x hx).number hid]

/-- No record of the client that the gateway had read was sent again. -/
def Other (c : UInt32) (journal : List OrderResponse) (x : Resend) : Prop :=
  x.slot < journal.length ∧ (x.slot < x.read → ∀ r, journal[x.slot]? = some r → r.clientId ≠ c)

theorem Other.append {c : UInt32} {x : Resend} (l l' : List OrderResponse) (h : Other c l x) :
    Other c (l ++ l') x := by
  refine ⟨h.1.trans_le (by rw [List.length_append]; exact Nat.le_add_right _ _), fun hread r hr => ?_⟩
  rw [List.getElem?_append_left h.1] at hr
  exact h.2 hread r hr

/-- In every run in which the session that gets a record of the client has counted the client's
records so far, only `update_on_execution` moves the client's number in the database, and no logon
is answered with a record of the client that was sent before, a response has one number, and keeps
it when it is sent again. -/
theorem resent_keeps_number (b : Backend) (m : ClientManager σ) (clientId : UInt32) (moves : List (Move σ))
    (h : Along (fun t move => t.Even clientId move ∧ t.Unfollowed clientId move) (start b m) moves) :
    ((start b m).run moves).Keeps clientId := by
  obtain ⟨hcounted, hother⟩ : Counted clientId ((start b m).run moves) ∧
      ∀ x ∈ ((start b m).run moves).resent, Other clientId ((start b m).run moves).journal x := by
    refine h.preserves (I := fun t => Counted clientId t ∧ ∀ x ∈ t.resent, Other clientId t.journal x)
      (fun t move ht hmove => ⟨ht.1.step hmove.1, ?_⟩)
      ⟨Counted.start b m clientId, fun x hx => absurd hx List.not_mem_nil⟩
    refine resends_step (fun l l' x => Other.append l l') hmove.1 ht.2 fun x hx => ?_
    cases move with
    | message client request answers =>
      obtain ⟨hdata, hacc, hread, resp, hmem⟩ := mem_resends hx
      obtain ⟨hslot, j, f, hj, hf, hid, hack⟩ := ht.1.slot_readBack hmem
      refine ⟨(List.getElem?_eq_some_iff.mp hslot).1, fun hlt r hr => ?_⟩
      obtain ⟨data, msgSeqNum⟩ := request
      obtain rfl : data = .admin .logOn x.clientId x.ackSeqNum := hdata
      rw [hread] at hlt
      dsimp only at hj
      rw [hj] at hlt hr
      exact hmove.2 hacc j f hf hid hack hlt r hr
    | append slot resp => cases hx
    | close client => cases hx
    | writeFailed client => cases hx
    | respond => cases hx
    | update => cases hx
  intro i resp s n hi hid hs
  refine ⟨fun f hf => ?_, fun x hx hslot hread _ => ?_⟩
  · rw [(hcounted.filed i resp f hi hid hf).1, hcounted.sent i resp s n hi hid hs]
  · subst hslot
    exact absurd hid ((hother x hx).2 hread resp hi)

/-! ## The messages -/

/-- The history of a run is in its log: what was sent, and what was sent again. -/
structure Logged (t : Twin σ) : Prop where
  sent : ∀ (i : Nat) (s : σ) (n : Nat), t.sent[i]? = some (some (s, n)) →
    ∃ resp, t.journal[i]? = some resp ∧ .sent s ⟨.order resp, n⟩ ∈ t.service.log
  resent : ∀ x ∈ t.resent, ∃ resp s, t.journal[x.slot]? = some resp ∧
    .sent s ⟨.order resp, x.number⟩ ∈ t.service.log

/-- What an accepted logon reads back is sent to it, as `resends` numbers it. -/
theorem log_resends {t : Twin σ} {client : σ} {request : ClientRequest} (answers : Answers) {x : Resend}
    (hx : x ∈ t.resends request) : ∃ resp, t.journal[x.slot]? = some resp ∧
      .sent client ⟨.order resp, x.number⟩ ∈
        (t.step (.message client request answers)).service.log := by
  obtain ⟨hdata, hacc, -, resp, hmem⟩ := mem_resends hx
  refine ⟨resp, (mem_readAt (List.fst_mem_of_mem_zipIdx hmem)).2, ?_⟩
  obtain ⟨data, msgSeqNum⟩ := request
  obtain rfl : data = .admin .logOn x.clientId x.ackSeqNum := hdata
  show _ ∈ (t.service.handleClientLogon client x.clientId msgSeqNum x.ackSeqNum
    ((t.readBack x.clientId x.ackSeqNum).map Prod.snd)).log
  unfold Service.handleClientLogon
  rw [if_pos hacc]
  refine List.mem_append_left _ (List.mem_append_right _ (List.mem_map.mpr ⟨(resp, x.number), ?_, rfl⟩))
  rw [List.zipIdx_map]
  exact List.mem_map_of_mem hmem

theorem log_step (t : Twin σ) (move : Move σ) : t.service.log <+: (t.step move).service.log := by
  cases move with
  | append slot resp => exact List.prefix_refl _
  | message client request answers => exact t.service.log_step _
  | close client => exact t.service.log_step _
  | writeFailed client => exact t.service.log_step _
  | respond =>
    unfold step
    dsimp only
    split
    · exact List.prefix_refl _
    · exact t.service.log_step _
  | update =>
    unfold step
    dsimp only
    split
    · exact List.prefix_refl _
    · exact t.service.log_step _

/-- Only the gateway's reading a record adds to what was sent. -/
theorem sent_step (t : Twin σ) (move : Move σ) : (t.step move).sent = t.sent ∨
    ∃ resp, t.journal[t.sent.length]? = some resp ∧ (t.step move).sent = t.sent ++ [reply t.service resp] ∧
      (t.step move).service = t.service.step (.respond resp) := by
  cases move with
  | append slot resp => exact Or.inl rfl
  | message client request answers => exact Or.inl rfl
  | close client => exact Or.inl rfl
  | writeFailed client => exact Or.inl rfl
  | respond =>
    unfold step
    dsimp only
    split
    · exact Or.inl rfl
    · rename_i resp hnext
      exact Or.inr ⟨resp, hnext, rfl, rfl⟩
  | update =>
    unfold step
    dsimp only
    split
    · exact Or.inl rfl
    · exact Or.inl rfl

/-- One move: what was resent is in the log with its number. -/
theorem Logged.step {c : UInt32} {t : Twin σ} (h : Logged t) {move : Move σ} (heven : t.Even c move) :
    Logged (t.step move) := by
  obtain ⟨l, hl⟩ := journal_step heven
  have hjournal : ∀ (i : Nat) (resp : OrderResponse), t.journal[i]? = some resp →
      (t.step move).journal[i]? = some resp := by
    intro i resp hi
    rw [hl, List.getElem?_append_left (List.getElem?_eq_some_iff.mp hi).1]
    exact hi
  have hlog := (t.log_step move).subset
  refine ⟨fun i s n hi => ?_, fun x hx => ?_⟩
  · have hold : t.sent[i]? = some (some (s, n)) → ∃ resp, (t.step move).journal[i]? = some resp ∧
        .sent s ⟨.order resp, n⟩ ∈ (t.step move).service.log := by
      intro hi
      obtain ⟨resp, hresp, hmem⟩ := h.sent i s n hi
      exact ⟨resp, hjournal i resp hresp, hlog hmem⟩
    rcases t.sent_step move with hsame | ⟨resp, hnext, hsent, hservice⟩
    · rw [hsame] at hi
      exact hold hi
    · rw [hsent] at hi
      rcases getElem?_snoc hi with hi | ⟨rfl, hreply⟩
      · exact hold hi
      · refine ⟨resp, hjournal _ resp hnext, ?_⟩
        rw [hservice, log_respond, ← hreply]
        exact List.mem_append_right _ List.mem_cons_self
  · rw [resent_step, List.mem_append] at hx
    rcases hx with hx | hx
    · obtain ⟨resp, s, hresp, hmem⟩ := h.resent x hx
      exact ⟨resp, s, hjournal _ resp hresp, hlog hmem⟩
    · cases move with
      | message client request answers =>
        obtain ⟨resp, hresp, hmem⟩ := log_resends answers hx
        exact ⟨resp, client, hjournal _ resp hresp, hmem⟩
      | append slot resp => cases hx
      | close client => cases hx
      | writeFailed client => cases hx
      | respond => cases hx
      | update => cases hx

/-- What `Keeps` speaks of are messages. -/
theorem Along.logged {c : UInt32} {moves : List (Move σ)} (b : Backend) (m : ClientManager σ)
    (h : Along (Even c) (start b m) moves) : Logged ((start b m).run moves) :=
  h.preserves (I := Logged) (fun _ _ ht heven => ht.step heven)
    ⟨fun _ _ _ hi => (by cases hi), fun _ hx => absurd hx List.not_mem_nil⟩

/-! ## Runs -/

/-- A record of client 7 is read before client 7 logs on, and the next one is sent on its session;
one of client 9 comes behind. The first two are filed before client 7 logs out. -/
def evenMoves : List (Move Nat) :=
  [.append 0 Service.response7, .respond, .message 0 ⟨.admin .logOn 7 0, 1⟩ .quiet,
    .append 1 Service.response7, .respond, .append 2 { Service.response7 with clientId := 9 }, .respond,
    .update, .update, .message 0 ⟨.admin .logOut 7 0, 2⟩ .quiet]

theorem evenMoves_along : Along (fun t move => t.Even 7 move ∧ t.Unfollowed 7 move)
    (start .memory oneRing) evenMoves := by
  refine ⟨⟨rfl, trivial⟩, ⟨fun resp s hresp _ hs => ?_, trivial⟩, ⟨fun _ _ => by decide, fun _ j f hf => ?_⟩,
    ⟨rfl, trivial⟩, ⟨fun resp s hresp _ hs => ?_, trivial⟩, ⟨rfl, trivial⟩,
    ⟨fun resp s hresp hid _ => ?_, trivial⟩, ⟨trivial, trivial⟩, ⟨trivial, trivial⟩,
    ⟨fun _ _ _ => by decide, trivial⟩, trivial⟩
  · -- nobody to send it to
    obtain rfl : Service.response7 = resp := Option.some.inj hresp
    cases hs
  · cases hf
  · obtain rfl : Service.response7 = resp := Option.some.inj hresp
    have hclient : (((start .memory oneRing).run (evenMoves.take 4)).service.manager.handleExecutionResponse
        Service.response7).2 = some 0 := by decide
    obtain rfl := Option.some.inj (hclient.symm.trans hs)
    decide
  · obtain rfl : { Service.response7 with clientId := 9 } = resp := Option.some.inj hresp
    cases hid

/-- One move more along the condition. -/
theorem Along.snoc {P : Twin σ → Move σ → Prop} {t : Twin σ} {moves : List (Move σ)} {move : Move σ}
    (h : Along P t moves) (hmove : P (t.run moves) move) : Along P t (moves ++ [move]) := by
  induction moves generalizing t with
  | nil => exact ⟨hmove, trivial⟩
  | cons move' moves ih => exact ⟨h.1, ih h.2 hmove⟩

/-- Client 7 logs on again and acknowledges its first response. Behind the second one is the record
of client 9, which it gets in its place, as number 2. -/
def evenRun : List (Move Nat) := evenMoves ++ [.message 1 ⟨.admin .logOn 7 1, 2⟩ .quiet]

theorem evenRun_keeps_number :
    Along (fun t move => t.Even 7 move ∧ t.Unfollowed 7 move) (start .memory oneRing) evenRun ∧
    ((start .memory oneRing).run evenRun).sent = [none, some (0, 2), none] ∧
    ((start .memory oneRing).run evenRun).stores.filed = [⟨7, 1, 1⟩, ⟨7, 2, 2⟩] ∧
    ((start .memory oneRing).run evenRun).resent = [⟨7, 1, 3, 2, 2⟩] ∧
    ((start .memory oneRing).run evenRun).Keeps 7 := by
  have halong : Along (fun t move => t.Even 7 move ∧ t.Unfollowed 7 move) (start .memory oneRing) evenRun := by
    refine evenMoves_along.snoc ⟨fun _ _ => by decide, fun _ j f hf hid hack hlt resp hresp => ?_⟩
    have hfiled : ((start .memory oneRing).run evenMoves).stores.filed = [⟨7, 1, 1⟩, ⟨7, 2, 2⟩] := by decide
    rw [hfiled] at hf
    rcases j with _ | _ | j
    · obtain rfl := Option.some.inj hf
      exact absurd hack (by decide)
    · have hthird : ((start .memory oneRing).run evenMoves).journal[2]? =
          some { Service.response7 with clientId := 9 } := by decide
      obtain rfl := Option.some.inj (hthird.symm.trans hresp)
      decide
    · cases hf
  exact ⟨halong, by decide, by decide, by decide, resent_keeps_number .memory oneRing 7 evenRun halong⟩

/-- Client 7 logs on and gets the answer to its order: the session has given number 1 to its
Ready, and the answer is sent as number 2 and filed as number 1. -/
theorem ready_shifts_number :
    ¬ ((start .memory oneRing).run [.message 0 ⟨.admin .logOn 7 0, 1⟩ .quiet,
      .message 0 ⟨.order Service.order7, 2⟩ .quiet, .append 0 Service.response7, .respond,
      .update]).Keeps 7 := by
  intro h
  have hsame := (h 0 Service.response7 0 2 rfl rfl (by decide)).1 ⟨7, 1, 1⟩ (by decide)
  cases hsame

/-- Client 7 acknowledges nothing, and gets its second response in the place of the first: what was
sent as number 2 is sent again as number 1, though all the counts are even. -/
theorem neighbour_shifts_number :
    Along (Even 7) (start .memory oneRing) (evenMoves ++ [.message 1 ⟨.admin .logOn 7 0, 2⟩ .quiet]) ∧
    ¬ ((start .memory oneRing).run
      (evenMoves ++ [.message 1 ⟨.admin .logOn 7 0, 2⟩ .quiet])).Keeps 7 := by
  refine ⟨(evenMoves_along.mono fun _ _ h => h.1).snoc fun _ _ => by decide, fun h => ?_⟩
  have hsame := (h 1 Service.response7 0 2 (by decide) rfl (by decide)).2 ⟨7, 0, 3, 1, 1⟩ (by decide) rfl
    (by decide) (by decide)
  cases hsame

end Twin

end Gateway

end Exchange
