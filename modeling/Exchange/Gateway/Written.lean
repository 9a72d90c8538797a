import Mathlib.Algebra.Order.Group.Nat
import Mathlib.Data.List.Perm.Basic
import Exchange.Gateway.Closing

/-!
# What a session writes

The write path of `WSSession`: `send` posts a closure that queues the message, the first to find no write
loop running spawns one, and the loop writes one message after the other until the queue is empty. A
write error ends the loop, with what is queued left where it is until the next `send`.

`Writing` says that the flag is what it should be: it is set as long as there is one write loop, spawned or
suspended in a write, and there is never a second. So no two writes are awaited at a time, which the stream
would not allow, and a message leaves the queue once. `Drained` says that without a write error the loop
leaves nothing behind.

What is posted to a strand runs in the order in which it was posted, a spawned write loop included (`InTurn`).
What holds in any order is stated without.
-/

namespace Exchange.Gateway

/-- The message that a posted closure queues. -/
def Task.message {μ : Type} : Task μ → Option μ
  | .send msg => some msg
  | _ => none

def Task.isWriteLoop {μ : Type} : Task μ → Bool
  | .writeLoop => true
  | _ => false

/-- The message that is given to `send`. -/
def SocketEvent.message {η μ : Type} : SocketEvent η μ → Option μ
  | .send msg => some msg
  | _ => none

/-- What is posted to the strand runs in the order in which it was posted: the closures of `send` and `close`,
and the first step of a write loop that one of them spawned. -/
def InTurn {η μ : Type} (es : List (SocketEvent η μ)) : Prop := ∀ k, .runs k ∈ es → k = 0

namespace WSSession

variable {η μ : Type}

/-- The message whose write ends here, and whether it was written. -/
def ended (s : WSSession η μ) : SocketEvent η μ → List (μ × Bool)
  | .wrote k => s.writes[k]?.toList.map (·, true)
  | .writeError k => s.writes[k]?.toList.map (·, false)
  | _ => []

/-- The writes of a run as they end. -/
def transcript (s : WSSession η μ) : List (SocketEvent η μ) → List (μ × Bool)
  | [] => []
  | e :: es => s.ended e ++ (s.step e).elim [] fun s' => s'.transcript es

/-- The messages that wait: those whose write is awaited, the queue, and those not queued yet. -/
def pending (s : WSSession η μ) : List μ := s.writes ++ s.writeQueue ++ s.posted.filterMap Task.message

/-- `writing_` is set exactly if there is a write loop, and there is one at most. -/
def Writing (s : WSSession η μ) : Prop :=
  s.writes.length + s.posted.countP Task.isWriteLoop = if s.writing then 1 else 0

/-- Nothing is queued that no write loop will take. -/
def Drained (s : WSSession η μ) : Prop := s.writing = false → s.writeQueue = []

/-- Nothing that has to do with writing differs. -/
structure SameWrites (s t : WSSession η μ) : Prop where
  writes : s.writes = t.writes
  writeQueue : s.writeQueue = t.writeQueue
  writing : s.writing = t.writing
  posted : s.posted = t.posted

/-- What a step does to the write path. -/
inductive WriteStep (s s' : WSSession η μ) : SocketEvent η μ → Prop
  | idle {e : SocketEvent η μ} (hmessage : e.message = none) (hended : s.ended e = [])
      (hfails : ∀ k, e ≠ .writeError k) (hsame : s'.SameWrites s) : WriteStep s s' e
  | posts {e : SocketEvent η μ} (task : Task μ) (hmessage : e.message = task.message) (hended : s.ended e = [])
      (hloop : task.isWriteLoop = false) (hfails : ∀ k, e ≠ .writeError k)
      (hsame : s'.SameWrites { s with posted := s.posted ++ [task] }) : WriteStep s s' e
  | queues {k : Nat} {msg : μ} (htask : s.posted[k]? = some (.send msg))
      (hnext : s' = { s with posted := s.posted.eraseIdx k }.push msg) : WriteStep s s' (.runs k)
  | closes {k : Nat} (htask : s.posted[k]? = some .close)
      (hsame : s'.SameWrites { s with posted := s.posted.eraseIdx k }) : WriteStep s s' (.runs k)
  | loops {k : Nat} (htask : s.posted[k]? = some .writeLoop)
      (hnext : s' = { s with posted := s.posted.eraseIdx k }.writeLoop) : WriteStep s s' (.runs k)
  | wrote {k : Nat} (hk : k < s.writes.length)
      (hnext : s' = { s with writes := s.writes.eraseIdx k }.writeLoop) : WriteStep s s' (.wrote k)
  | fails {k : Nat} (hk : k < s.writes.length)
      (hnext : s' = { s with writes := s.writes.eraseIdx k }.writeFailed) : WriteStep s s' (.writeError k)

variable {s s' : WSSession η μ} {e : SocketEvent η μ} {es : List (SocketEvent η μ)}

theorem onClose_same (s : WSSession η μ) : s.onClose.SameWrites s := by
  unfold onClose
  split
  · exact ⟨rfl, rfl, rfl, rfl⟩
  · exact ⟨rfl, rfl, rfl, rfl⟩

theorem shut_same (s : WSSession η μ) : s.shut.SameWrites s := by
  unfold shut
  split
  · exact ⟨rfl, rfl, rfl, rfl⟩
  · obtain ⟨hwrites, hqueue, hwriting, hposted⟩ := onClose_same { s with socketOpen := false }
    exact ⟨hwrites, hqueue, hwriting, hposted⟩

/-- What one event does to the writes. -/
theorem step_writes (hstep : s.step e = some s') : WriteStep s s' e := by
  cases e with
  | accepted handler =>
    obtain ⟨-, he⟩ := Option.ite_none_right_eq_some.mp hstep
    cases he
    exact .idle rfl rfl (fun _ => nofun) ⟨rfl, rfl, rfl, rfl⟩
  | acceptError =>
    obtain ⟨-, he⟩ := Option.ite_none_right_eq_some.mp hstep
    cases he
    obtain ⟨hwrites, hqueue, hwriting, hposted⟩ := onClose_same { s with reader := .refused }
    exact .idle rfl rfl (fun _ => nofun) ⟨hwrites, hqueue, hwriting, hposted⟩
  | read =>
    obtain ⟨-, he⟩ := Option.ite_none_right_eq_some.mp hstep
    cases he
    exact .idle rfl rfl (fun _ => nofun) ⟨rfl, rfl, rfl, rfl⟩
  | readError =>
    obtain ⟨-, he⟩ := Option.ite_none_right_eq_some.mp hstep
    cases he
    obtain ⟨hwrites, hqueue, hwriting, hposted⟩ := onClose_same { s with reader := .ended }
    exact .idle rfl rfl (fun _ => nofun) ⟨hwrites, hqueue, hwriting, hposted⟩
  | send msg =>
    cases hstep
    exact .posts (.send msg) rfl rfl rfl (fun _ => nofun) ⟨rfl, rfl, rfl, rfl⟩
  | close =>
    obtain ⟨-, he⟩ := Option.ite_none_left_eq_some.mp hstep
    cases he
    exact .posts .close rfl rfl rfl (fun _ => nofun) ⟨rfl, rfl, rfl, rfl⟩
  | runs k =>
    obtain ⟨task, htask, rfl⟩ := Option.map_eq_some_iff.mp hstep
    cases task with
    | send msg => exact .queues htask rfl
    | close => exact .closes htask (shut_same _)
    | writeLoop => exact .loops htask rfl
  | wrote k =>
    obtain ⟨⟨-, hk⟩, he⟩ := Option.ite_none_right_eq_some.mp hstep
    cases he
    exact .wrote hk rfl
  | writeError k =>
    obtain ⟨hk, he⟩ := Option.ite_none_right_eq_some.mp hstep
    cases he
    exact .fails hk rfl

/-! ## One write loop -/

/-- The writing invariant reads the writes only. -/
theorem SameWrites.iff_writing (h : s'.SameWrites s) : s'.Writing ↔ s.Writing := by
  unfold Writing
  rw [h.writes, h.posted, h.writing]

/-- No two writes are awaited. -/
theorem Writing.one (h : s.Writing) : s.writes.length ≤ 1 := by
  unfold Writing at h
  split at h
  · omega
  · omega

/-- The write that ends is the only one, and its loop goes on. -/
theorem Writing.awaited (h : s.Writing) {k : Nat} (hk : k < s.writes.length) : ∃ msg, s.writes = [msg] ∧ k = 0 ∧
    s.writing = true ∧ s.posted.countP Task.isWriteLoop = 0 := by
  have hone := h.one
  obtain ⟨msg, hmsg⟩ := List.length_eq_one_iff.mp (show s.writes.length = 1 by omega)
  unfold Writing at h
  rw [hmsg, List.length_singleton] at h
  split at h
  · rename_i hwriting
    exact ⟨msg, hmsg, by omega, hwriting, by omega⟩
  · omega

/-- What runs is taken from what is posted. -/
theorem posted_perm {k : Nat} {task : Task μ} (h : s.posted[k]? = some task) :
    (task :: s.posted.eraseIdx k).Perm s.posted := by
  obtain ⟨hk, rfl⟩ := List.getElem?_eq_some_iff.mp h
  exact List.getElem_cons_eraseIdx_perm hk

/-- A loop that has been taken from where it waited writes the next message, or ends. -/
theorem writeLoop_writing (hwriting : s.writing = true) (hwrites : s.writes = [])
    (hposted : s.posted.countP Task.isWriteLoop = 0) : s.writeLoop.Writing := by
  unfold writeLoop Writing
  split
  · show s.writes.length + s.posted.countP Task.isWriteLoop = 0
    rw [hwrites, hposted]
    rfl
  · rw [hwrites, hposted, hwriting]
    rfl

/-- A message pushed is queued behind the others, or begins a write. -/
theorem push_writing (h : s.Writing) (msg : μ) : (s.push msg).Writing := by
  unfold push
  split
  · exact h
  · rename_i hno
    unfold Writing at h ⊢
    rw [if_neg hno] at h
    show s.writes.length + (s.posted ++ [Task.writeLoop]).countP Task.isWriteLoop = 1
    rw [List.countP_append]
    show s.writes.length + (s.posted.countP Task.isWriteLoop + 1) = 1
    omega

theorem Writing.step (h : s.Writing) (hstep : s.step e = some s') : s'.Writing := by
  cases step_writes hstep with
  | idle _ _ _ hsame => exact hsame.iff_writing.mpr h
  | posts task _ _ hloop _ hsame =>
    rw [hsame.iff_writing]
    unfold Writing
    dsimp only
    rw [List.countP_append, List.countP_singleton, hloop]
    exact h
  | @queues k msg htask hnext =>
    have hcount := (posted_perm htask).countP_eq Task.isWriteLoop
    rw [hnext]
    refine push_writing ?_ msg
    unfold Writing at h ⊢
    rw [← h, ← hcount]
    rfl
  | @closes k htask hsame =>
    have hcount := (posted_perm htask).countP_eq Task.isWriteLoop
    rw [hsame.iff_writing]
    unfold Writing at h ⊢
    rw [← h, ← hcount]
    rfl
  | @loops k htask hnext =>
    have hcount := (posted_perm htask).countP_eq Task.isWriteLoop
    rw [List.countP_cons_of_pos rfl] at hcount
    unfold Writing at h
    rw [hnext]
    split at h
    · rename_i hwriting
      exact writeLoop_writing hwriting (List.length_eq_zero_iff.mp (show s.writes.length = 0 by omega))
        (show (s.posted.eraseIdx k).countP Task.isWriteLoop = 0 by omega)
    · omega
  | wrote hk hnext =>
    obtain ⟨msg, hmsg, rfl, hwriting, hposted⟩ := h.awaited hk
    rw [hnext]
    refine writeLoop_writing hwriting ?_ hposted
    rw [hmsg]
    rfl
  | fails hk hnext =>
    obtain ⟨msg, hmsg, rfl, -, hposted⟩ := h.awaited hk
    rw [hnext, hmsg]
    exact (Nat.zero_add _).trans hposted

/-! ## Every message once -/

theorem SameWrites.pending_eq (h : s'.SameWrites s) : s'.pending = s.pending := by
  unfold pending
  rw [h.writes, h.writeQueue, h.posted]

theorem writeLoop_pending (s : WSSession η μ) : s.writeLoop.pending = s.pending := by
  unfold writeLoop
  split
  · rfl
  · rename_i msg rest hqueue
    unfold pending
    rw [hqueue]
    simp

theorem push_pending (s : WSSession η μ) (msg : μ) :
    (s.push msg).pending = s.writes ++ (s.writeQueue ++ [msg]) ++ s.posted.filterMap Task.message := by
  unfold push
  split
  · rfl
  · unfold pending
    rw [List.filterMap_append]
    simp [Task.message]

/-- A closure that runs gives its message up, and one that runs in its turn is the first. -/
theorem posted_pending {k : Nat} {task : Task μ} (h : s.posted[k]? = some task) :
    (s.writes ++ s.writeQueue ++ (task.message.toList ++ (s.posted.eraseIdx k).filterMap Task.message)).Perm
        s.pending ∧
      (k = 0 → s.writes ++ s.writeQueue ++ (task.message.toList ++ (s.posted.eraseIdx k).filterMap Task.message) =
        s.pending) := by
  have hcons : ∀ rest : List (Task μ),
      (task :: rest).filterMap Task.message = task.message.toList ++ rest.filterMap Task.message := by
    intro rest
    cases hm : task.message with
    | none => exact List.filterMap_cons_none hm
    | some msg => exact List.filterMap_cons_some hm
  unfold pending
  rw [← hcons]
  refine ⟨((posted_perm h).filterMap _).append_left _, ?_⟩
  rintro rfl
  cases hposted : s.posted with
  | nil =>
    rw [hposted] at h
    cases h
  | cons task' rest =>
    rw [hposted] at h
    obtain rfl := Option.some.inj h
    rfl

/-- What was pending, and what is given, has ended or is pending; and in its turn it is in order. -/
theorem step_pending (h : s.Writing) (hstep : s.step e = some s') :
    ((s.ended e).map Prod.fst ++ s'.pending).Perm (s.pending ++ e.message.toList) ∧
      (InTurn [e] → (s.ended e).map Prod.fst ++ s'.pending = s.pending ++ e.message.toList) := by
  -- in turn it is an equality; in any order, up to the order
  have hboth : ∀ {xs ys : List μ}, xs = ys → xs.Perm ys ∧ (InTurn [e] → xs = ys) := by
    intro xs ys hxs
    exact ⟨hxs ▸ List.Perm.refl _, fun _ => hxs⟩
  cases step_writes hstep with
  | idle hmessage hended _ hsame =>
    refine hboth ?_
    rw [hmessage, hended, hsame.pending_eq]
    simp
  | posts task hmessage hended _ _ hsame =>
    refine hboth ?_
    rw [hmessage, hended, hsame.pending_eq]
    unfold pending
    rw [List.filterMap_append]
    cases hm : task.message <;> simp [hm]
  -- a message leaves the posted ones for the queue
  | @queues k msg htask hnext =>
    obtain ⟨hperm, hturn⟩ := posted_pending htask
    rw [hnext, push_pending]
    simp only [ended, SocketEvent.message, Task.message, Option.toList_some, Option.toList_none, List.map_nil,
      List.nil_append, List.append_nil, List.append_assoc] at hperm hturn ⊢
    exact ⟨hperm, fun h => hturn (h k List.mem_cons_self)⟩
  | @closes k htask hsame =>
    obtain ⟨hperm, hturn⟩ := posted_pending htask
    rw [hsame.pending_eq]
    simp only [ended, SocketEvent.message, Task.message, Option.toList_none, List.map_nil, List.nil_append,
      List.append_nil] at hperm hturn ⊢
    exact ⟨hperm, fun h => hturn (h k List.mem_cons_self)⟩
  | @loops k htask hnext =>
    obtain ⟨hperm, hturn⟩ := posted_pending htask
    rw [hnext, writeLoop_pending]
    simp only [ended, SocketEvent.message, Task.message, Option.toList_none, List.map_nil, List.nil_append,
      List.append_nil] at hperm hturn ⊢
    exact ⟨hperm, fun h => hturn (h k List.mem_cons_self)⟩
  -- the first of the queue leaves it when its write begins
  | wrote hk hnext =>
    obtain ⟨msg, hmsg, rfl, -, -⟩ := h.awaited hk
    refine hboth ?_
    rw [hnext, writeLoop_pending]
    unfold ended pending
    rw [hmsg]
    simp [SocketEvent.message]
  | fails hk hnext =>
    obtain ⟨msg, hmsg, rfl, -, -⟩ := h.awaited hk
    refine hboth ?_
    rw [hnext]
    unfold ended pending writeFailed
    rw [hmsg]
    simp [SocketEvent.message]

/-! ## Nothing left behind -/

theorem Drained.writeLoop (s : WSSession η μ) (hwriting : s.writing = true) : s.writeLoop.Drained := by
  unfold WSSession.writeLoop
  split
  · rename_i hqueue
    exact fun _ => hqueue
  · intro hno
    exact absurd (hno.symm.trans hwriting) Bool.false_ne_true

theorem Drained.push (s : WSSession η μ) (msg : μ) : (s.push msg).Drained := by
  unfold WSSession.push
  split
  · rename_i hwriting
    intro hno
    exact absurd (hno.symm.trans hwriting) Bool.false_ne_true
  · exact fun hno => absurd hno.symm Bool.false_ne_true

/-- Only a write error leaves messages behind. -/
theorem Drained.step (h : s.Drained) (hwriting : s.Writing) (hstep : s.step e = some s')
    (hfails : ∀ k, e ≠ .writeError k) : s'.Drained := by
  have hsame : ∀ {t : WSSession η μ}, s'.SameWrites t → t.Drained → s'.Drained := by
    intro t hst ht
    unfold Drained at ht ⊢
    rw [hst.writing, hst.writeQueue]
    exact ht
  cases step_writes hstep with
  | idle _ _ _ hst => exact hsame hst h
  | posts _ _ _ _ _ hst => exact hsame hst h
  | queues _ hnext =>
    rw [hnext]
    exact Drained.push _ _
  | closes _ hst => exact hsame hst h
  | @loops k htask hnext =>
    rw [hnext]
    refine Drained.writeLoop _ ?_
    have hcount := (posted_perm htask).countP_eq Task.isWriteLoop
    rw [List.countP_cons_of_pos rfl] at hcount
    unfold Writing at hwriting
    split at hwriting
    · assumption
    · omega
  | wrote hk hnext =>
    obtain ⟨msg, hmsg, rfl, hset, -⟩ := hwriting.awaited hk
    rw [hnext]
    exact Drained.writeLoop _ hset
  | fails _ _ => exact absurd rfl (hfails _)

/-! ## Runs -/

/-- The messages given to `send`, in order. -/
def given (es : List (SocketEvent η μ)) : List μ := es.filterMap SocketEvent.message

/-- The messages of one event and of those behind it. -/
theorem given_cons (e : SocketEvent η μ) (es : List (SocketEvent η μ)) :
    given (e :: es) = e.message.toList ++ given es := by
  unfold given
  cases hm : e.message with
  | none => exact List.filterMap_cons_none hm
  | some msg => exact List.filterMap_cons_some hm

/-- What one event ends, and what those behind it end. -/
theorem transcript_cons (hstep : s.step e = some s') :
    s.transcript (e :: es) = s.ended e ++ s'.transcript es := by
  unfold transcript
  rw [hstep]
  cases es <;> rfl

/-- By induction on the events: what was written and what is pending is what was given. -/
theorem Writing.run (h : s.Writing) (hrun : s.run es = some s') :
    s'.Writing ∧ ((s.transcript es).map Prod.fst ++ s'.pending).Perm (s.pending ++ given es) ∧
      (InTurn es → (s.transcript es).map Prod.fst ++ s'.pending = s.pending ++ given es) ∧
      (s.Drained → (∀ m ∈ s.transcript es, m.2 = true) → s'.Drained) := by
  induction es generalizing s with
  | nil =>
    obtain rfl := Option.some.inj hrun
    have hnil : (s.transcript []).map Prod.fst ++ s.pending = s.pending ++ given ([] : List (SocketEvent η μ)) :=
      (List.append_nil _).symm
    exact ⟨h, hnil ▸ List.Perm.refl _, fun _ => hnil, fun hdrained _ => hdrained⟩
  | cons e es ih =>
    obtain ⟨s₁, hstep, hrest⟩ := Option.bind_eq_some_iff.mp hrun
    obtain ⟨hwriting, hperm, hturn, hdrained⟩ := ih (h.step hstep) hrest
    obtain ⟨hperm₁, hturn₁⟩ := step_pending h hstep
    rw [transcript_cons hstep, given_cons, List.map_append, List.append_assoc, ← List.append_assoc s.pending]
    refine ⟨hwriting, ?_, fun hall => ?_, fun hd hall => ?_⟩
    · refine (hperm.append_left _).trans ?_
      rw [← List.append_assoc]
      exact hperm₁.append_right _
    · rw [hturn fun k hk => hall k (List.mem_cons_of_mem _ hk), ← List.append_assoc,
        hturn₁ fun k hk => hall k (List.mem_singleton.mp hk ▸ List.mem_cons_self)]
    · refine hdrained (hd.step h hstep fun k he => ?_) fun m hm => hall m (List.mem_append_right _ hm)
      -- the write that fails is in the transcript
      subst he
      obtain ⟨hk, -⟩ := Option.ite_none_right_eq_some.mp hstep
      have hmem : (s.writes[k], false) ∈ s.ended (.writeError k) := by
        show (s.writes[k], false) ∈ s.writes[k]?.toList.map (·, false)
        rw [List.getElem?_eq_getElem hk]
        exact List.mem_cons_self
      cases hall _ (List.mem_append_left _ hmem)

theorem create_writing (closeHandler : Option η) : (create closeHandler : WSSession η μ).Writing := rfl

/-- However sends, writes and errors interleave, no two writes are awaited at a time, and every message given
to `send` is written once, failed to be written once, or waits: in the order in which they were given, if
what is posted runs in its turn. As long as no write fails, when nothing is posted and no write awaited all
have been written. -/
theorem written_once {closeHandler : Option η} (hrun : (create closeHandler).run es = some s) :
    s.writes.length ≤ 1 ∧
      (((create closeHandler).transcript es).map Prod.fst ++ s.pending).Perm (given es) ∧
      (InTurn es → ((create closeHandler).transcript es).map Prod.fst ++ s.pending = given es) ∧
      ((∀ m ∈ (create closeHandler).transcript es, m.2 = true) → s.posted = [] → s.writes = [] →
        s.pending = []) := by
  obtain ⟨hwriting, hperm, hturn, hdrained⟩ := (create_writing closeHandler).run hrun
  refine ⟨hwriting.one, hperm, hturn, fun hall hposted hwrites => ?_⟩
  have hset : s.writing = false := by
    unfold Writing at hwriting
    rw [hposted, hwrites] at hwriting
    by_contra hset
    rw [if_pos (Bool.not_eq_false _ ▸ hset)] at hwriting
    cases hwriting
  unfold pending
  rw [hwrites, hposted, hdrained (fun _ => rfl) hall hset]
  rfl

/-- Two messages are given at once, a third while the first is written, and the second write fails. -/
def sampleSends : List (SocketEvent String Nat) :=
  [.accepted none, .send 7, .send 8, .runs 0, .runs 0, .runs 0, .send 9, .wrote 0, .runs 0, .writeError 0]

/-- The first is written, the second is not, and the third stays in the queue. -/
theorem sample_written : ∃ s, (create none).run sampleSends = some s ∧
    (create none).transcript sampleSends = [(7, true), (8, false)] ∧
    s.writes.length ≤ 1 ∧ [7, 8] ++ s.pending = [7, 8, 9] := by
  obtain ⟨s, hrun, hwrote⟩ := (Option.any_eq_true ..).mp
    (show (((create none).run sampleSends).any fun s => decide
      ((create none).transcript sampleSends = [(7, true), (8, false)])) = true by decide +kernel)
  obtain ⟨hone, -, hturn, -⟩ := written_once hrun
  have htranscript := of_decide_eq_true hwrote
  rw [htranscript] at hturn
  exact ⟨s, hrun, htranscript, hone, hturn (by simp [sampleSends, InTurn])⟩

end WSSession

end Exchange.Gateway
