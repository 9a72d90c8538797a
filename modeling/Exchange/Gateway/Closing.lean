import Mathlib.Data.List.Basic

/-!
# The end of a connection

`WSSession` of `src/WSAdaptor.cpp`. `start`, `read_loop` and `write_loop` are coroutines, and `send` and
`close` post closures; all of them run on the executor of the stream, so what lies between two
suspensions is one step here. What is posted may run in any order, and a read or a write that is awaited
may complete or fail at any time.

`η` are the close handlers and `μ` the messages. The handler of the adaptor is there from the start, the
one of the session is registered by the open handler, and nobody has the session to close it before
that. `ran` is the history; nothing in the code reads it. The buffer, the message handlers and an open
handler that throws are left out.

`on_close` and `write_loop` both set `closed_`, and `on_close` runs the handler only if it is the one to
set it. A session is `Open` until one of them does, then it is `Notified` or `Silent` for good.
-/

namespace Exchange.Gateway

/-- Where `start`, and the `read_loop` it spawns, have come to. -/
inductive Reader
  | handshake
  | refused
  | reading
  | ended
  deriving DecidableEq, Repr

/-- What is posted to the executor. -/
inductive Task (μ : Type)
  | send (msg : μ)
  | close
  | writeLoop
  deriving DecidableEq, Repr

/-- `class WSSession`. `writes` are the messages whose `async_write` is awaited. -/
structure WSSession (η μ : Type) where
  closeHandler : Option η
  sessionCloseHandler : Option η
  closed : Bool
  writing : Bool
  writeQueue : List μ
  socketOpen : Bool
  reader : Reader
  posted : List (Task μ)
  writes : List μ
  ran : List η
  deriving DecidableEq, Repr

/-- What happens to a session. -/
inductive SocketEvent (η μ : Type)
  | accepted (handler : Option η)
  | acceptError
  | read
  | readError
  | send (msg : μ)
  | close
  | runs (task : Nat)
  | wrote (write : Nat)
  | writeError (write : Nat)
  deriving DecidableEq, Repr

namespace WSSession

variable {η μ : Type}

/-- `WSSession::WSSession`. -/
def create (closeHandler : Option η) : WSSession η μ :=
  ⟨closeHandler, none, false, false, [], true, .handshake, [], [], []⟩

/-- The handler that `on_close` runs. -/
def handler (s : WSSession η μ) : Option η :=
  s.sessionCloseHandler <|> s.closeHandler

/-- `on_close`. -/
def onClose (s : WSSession η μ) : WSSession η μ :=
  if s.closed then s else { s with closed := true, ran := s.ran ++ s.handler.toList }

/-- `write_loop`, from the start of its loop to the next suspension. -/
def writeLoop (s : WSSession η μ) : WSSession η μ :=
  match s.writeQueue with
  | [] => { s with writing := false }
  | msg :: rest => { s with writeQueue := rest, writes := s.writes ++ [msg] }

/-- The handler of `write_loop`. -/
def writeFailed (s : WSSession η μ) : WSSession η μ :=
  { s with writing := false, closed := true }

/-- The closure of `send`. -/
def push (s : WSSession η μ) (msg : μ) : WSSession η μ :=
  if s.writing then { s with writeQueue := s.writeQueue ++ [msg] }
  else { s with writeQueue := s.writeQueue ++ [msg], writing := true, posted := s.posted ++ [.writeLoop] }

/-- The closure of `close`. -/
def shut (s : WSSession η μ) : WSSession η μ :=
  if s.closed then s else onClose { s with socketOpen := false }

/-- What is posted runs. -/
def runTask (s : WSSession η μ) : Task μ → WSSession η μ
  | .send msg => s.push msg
  | .close => s.shut
  | .writeLoop => s.writeLoop

/-- One step; none is an event that cannot happen. -/
def step (s : WSSession η μ) : SocketEvent η μ → Option (WSSession η μ)
  | .accepted handler =>
    if s.reader = .handshake then some { s with sessionCloseHandler := handler, reader := .reading } else none
  | .acceptError => if s.reader = .handshake then some (onClose { s with reader := .refused }) else none
  | .read => if s.reader = .reading ∧ s.socketOpen then some s else none
  | .readError => if s.reader = .reading then some (onClose { s with reader := .ended }) else none
  | .send msg => some { s with posted := s.posted ++ [.send msg] }
  | .close => if s.reader = .handshake then none else some { s with posted := s.posted ++ [.close] }
  | .runs k =>
    s.posted[k]?.map fun task => { s with posted := s.posted.eraseIdx k }.runTask task
  | .wrote k =>
    if s.socketOpen ∧ k < s.writes.length then some { s with writes := s.writes.eraseIdx k }.writeLoop else none
  | .writeError k =>
    if k < s.writes.length then some { s with writes := s.writes.eraseIdx k }.writeFailed else none

/-- A run. -/
def run (s : WSSession η μ) : List (SocketEvent η μ) → Option (WSSession η μ)
  | [] => some s
  | e :: es => s.step e >>= fun s' => s'.run es

/-- No write fails before the session is closed. -/
def WritesHold (s : WSSession η μ) : List (SocketEvent η μ) → Prop
  | [] => True
  | e :: es => (∀ k, e = .writeError k → s.closed = true) ∧ ∀ s', s.step e = some s' → s'.WritesHold es

/-- Nobody has closed the session. -/
structure Open (s : WSSession η μ) : Prop where
  closed : s.closed = false
  ran : s.ran = []
  reader : s.reader ≠ .ended
  posted : s.reader = .handshake → .close ∉ s.posted

/-- The session is closed and the handler has run. -/
structure Notified (s : WSSession η μ) : Prop where
  closed : s.closed = true
  ran : s.ran = s.handler.toList
  reader : s.reader ≠ .handshake

/-- The session is closed and the handler has not run. -/
structure Silent (s : WSSession η μ) : Prop where
  closed : s.closed = true
  ran : s.ran = []

section Parts

variable {s : WSSession η μ}

/-- Closing twice is closing once. -/
theorem onClose_closed (h : s.closed = true) : s.onClose = s := if_pos h

/-- The first `on_close` runs the handler. -/
theorem Open.onClose (h : s.closed = false) (hran : s.ran = []) (hreader : s.reader ≠ .handshake) :
    s.onClose.Notified := by
  unfold WSSession.onClose
  rw [if_neg (by rw [h]; decide), hran, List.nil_append]
  exact ⟨rfl, rfl, hreader⟩

/-- The write loop and `send` leave alone what says whether the handler has run. -/
theorem writeLoop_frame (s : WSSession η μ) : s.writeLoop.closed = s.closed ∧ s.writeLoop.ran = s.ran ∧
    s.writeLoop.reader = s.reader ∧ s.writeLoop.posted = s.posted ∧ s.writeLoop.handler = s.handler := by
  unfold writeLoop
  split
  · exact ⟨rfl, rfl, rfl, rfl, rfl⟩
  · exact ⟨rfl, rfl, rfl, rfl, rfl⟩

/-- Pushing a message closes nothing. -/
theorem push_frame (s : WSSession η μ) (msg : μ) : (s.push msg).closed = s.closed ∧
    (s.push msg).ran = s.ran ∧ (s.push msg).reader = s.reader ∧ (s.push msg).handler = s.handler ∧
    (.close ∉ s.posted → .close ∉ (s.push msg).posted) := by
  unfold push
  split
  · exact ⟨rfl, rfl, rfl, rfl, id⟩
  · refine ⟨rfl, rfl, rfl, rfl, fun h => ?_⟩
    simpa using h

end Parts

section Step

variable {s s' : WSSession η μ} {e : SocketEvent η μ}

/-- A session that is closed stays so, and the handler does not run again. -/
theorem step_closed (h : s.step e = some s') (hclosed : s.closed = true) :
    s'.closed = true ∧ s'.ran = s.ran ∧
      (s.reader ≠ .handshake → s'.reader ≠ .handshake ∧ s'.handler = s.handler) := by
  cases e with
  | accepted handler =>
    obtain ⟨hreader, he⟩ := Option.ite_none_right_eq_some.mp h
    cases he
    exact ⟨hclosed, rfl, fun hne => absurd hreader hne⟩
  -- `on_close` does nothing any more
  | acceptError =>
    obtain ⟨hreader, he⟩ := Option.ite_none_right_eq_some.mp h
    rw [onClose_closed (by exact hclosed)] at he
    cases he
    exact ⟨hclosed, rfl, fun hne => absurd hreader hne⟩
  | read =>
    obtain ⟨-, he⟩ := Option.ite_none_right_eq_some.mp h
    cases he
    exact ⟨hclosed, rfl, fun hne => ⟨hne, rfl⟩⟩
  | readError =>
    obtain ⟨-, he⟩ := Option.ite_none_right_eq_some.mp h
    rw [onClose_closed (by exact hclosed)] at he
    cases he
    exact ⟨hclosed, rfl, fun _ => ⟨fun he => (by cases he), rfl⟩⟩
  | send msg =>
    cases h
    exact ⟨hclosed, rfl, fun hne => ⟨hne, rfl⟩⟩
  | close =>
    obtain ⟨-, he⟩ := Option.ite_none_left_eq_some.mp h
    cases he
    exact ⟨hclosed, rfl, fun hne => ⟨hne, rfl⟩⟩
  -- what is posted is run all the same
  | runs k =>
    obtain ⟨task, -, rfl⟩ := Option.map_eq_some_iff.mp h
    cases task with
    | send msg =>
      obtain ⟨hc, hran, hreader, hhandler, -⟩ := push_frame { s with posted := s.posted.eraseIdx k } msg
      exact ⟨hc.trans hclosed, hran, fun hne => ⟨fun he => hne (hreader.symm.trans he), hhandler⟩⟩
    | close =>
      rw [show ({ s with posted := s.posted.eraseIdx k } : WSSession η μ).runTask .close =
        { s with posted := s.posted.eraseIdx k } from if_pos hclosed]
      exact ⟨hclosed, rfl, fun hne => ⟨hne, rfl⟩⟩
    | writeLoop =>
      obtain ⟨hc, hran, hreader, -, hhandler⟩ := writeLoop_frame { s with posted := s.posted.eraseIdx k }
      exact ⟨hc.trans hclosed, hran, fun hne => ⟨fun he => hne (hreader.symm.trans he), hhandler⟩⟩
  | wrote k =>
    obtain ⟨-, he⟩ := Option.ite_none_right_eq_some.mp h
    cases he
    obtain ⟨hc, hran, hreader, -, hhandler⟩ := writeLoop_frame { s with writes := s.writes.eraseIdx k }
    exact ⟨hc.trans hclosed, hran, fun hne => ⟨fun he => hne (hreader.symm.trans he), hhandler⟩⟩
  | writeError k =>
    obtain ⟨-, he⟩ := Option.ite_none_right_eq_some.mp h
    cases he
    exact ⟨rfl, rfl, fun hne => ⟨hne, rfl⟩⟩

/-- Whatever happens next, the close has been posted. -/
theorem Notified.step (h : s.Notified) (hstep : s.step e = some s') : s'.Notified := by
  obtain ⟨hclosed, hran, hrest⟩ := step_closed hstep h.closed
  obtain ⟨hreader, hhandler⟩ := hrest h.reader
  exact ⟨hclosed, by rw [hran, h.ran, hhandler], hreader⟩

/-- A closed session stays silent. -/
theorem Silent.step (h : s.Silent) (hstep : s.step e = some s') : s'.Silent := by
  obtain ⟨hclosed, hran, -⟩ := step_closed hstep h.closed
  exact ⟨hclosed, hran.trans h.ran⟩

/-- The write error is what closes a session without the handler. -/
theorem Open.writeError (h : s.Open) {k : Nat} (hstep : s.step (.writeError k) = some s') : s'.Silent := by
  obtain ⟨-, he⟩ := Option.ite_none_right_eq_some.mp hstep
  cases he
  exact ⟨rfl, h.ran⟩

/-- Anything else leaves it open, or runs the handler. -/
theorem Open.step (h : s.Open) (hstep : s.step e = some s') (hne : ∀ k, e ≠ .writeError k) :
    s'.Open ∨ s'.Notified := by
  cases e with
  | accepted handler =>
    obtain ⟨-, he⟩ := Option.ite_none_right_eq_some.mp hstep
    cases he
    exact Or.inl ⟨h.closed, h.ran, fun he => (by cases he), fun he => (by cases he)⟩
  | acceptError =>
    obtain ⟨-, he⟩ := Option.ite_none_right_eq_some.mp hstep
    cases he
    exact Or.inr (Open.onClose h.closed h.ran fun he => by cases he)
  | read =>
    obtain ⟨-, he⟩ := Option.ite_none_right_eq_some.mp hstep
    cases he
    exact Or.inl h
  | readError =>
    obtain ⟨-, he⟩ := Option.ite_none_right_eq_some.mp hstep
    cases he
    exact Or.inr (Open.onClose h.closed h.ran fun he => by cases he)
  | send msg =>
    cases hstep
    refine Or.inl ⟨h.closed, h.ran, h.reader, fun hreader => ?_⟩
    simpa using h.posted hreader
  | close =>
    obtain ⟨hreader, he⟩ := Option.ite_none_left_eq_some.mp hstep
    cases he
    exact Or.inl ⟨h.closed, h.ran, h.reader, fun he => absurd he hreader⟩
  | runs k =>
    obtain ⟨task, htask, rfl⟩ := Option.map_eq_some_iff.mp hstep
    have hposted : s.reader = .handshake → .close ∉ s.posted.eraseIdx k :=
      fun hreader hmem => h.posted hreader (List.mem_of_mem_eraseIdx hmem)
    cases task with
    | send msg =>
      obtain ⟨hc, hran, hreader, -, hnone⟩ := push_frame { s with posted := s.posted.eraseIdx k } msg
      exact Or.inl ⟨hc.trans h.closed, hran.trans h.ran, fun he => h.reader (hreader.symm.trans he),
        fun he => hnone (hposted (hreader.symm.trans he))⟩
    | close =>
      -- somebody had the session, so the handshake is over
      have hreader : s.reader ≠ .handshake := fun he => h.posted he (List.mem_of_getElem? htask)
      have hopen : ¬ s.closed = true := by
        rw [h.closed]
        decide
      rw [show ({ s with posted := s.posted.eraseIdx k } : WSSession η μ).runTask .close =
        WSSession.onClose { s with posted := s.posted.eraseIdx k, socketOpen := false } from if_neg hopen]
      exact Or.inr (Open.onClose h.closed h.ran hreader)
    | writeLoop =>
      obtain ⟨hc, hran, hreader, hkeep, -⟩ := writeLoop_frame { s with posted := s.posted.eraseIdx k }
      refine Or.inl ⟨hc.trans h.closed, hran.trans h.ran, fun he => h.reader (hreader.symm.trans he),
        fun he => ?_⟩
      show .close ∉ (writeLoop _).posted
      rw [hkeep]
      exact hposted (hreader.symm.trans he)
  | wrote k =>
    obtain ⟨-, he⟩ := Option.ite_none_right_eq_some.mp hstep
    cases he
    obtain ⟨hc, hran, hreader, hkeep, -⟩ := writeLoop_frame { s with writes := s.writes.eraseIdx k }
    refine Or.inl ⟨hc.trans h.closed, hran.trans h.ran, fun he => h.reader (hreader.symm.trans he),
      fun he => ?_⟩
    rw [hkeep]
    exact h.posted (hreader.symm.trans he)
  | writeError k => exact absurd rfl (hne k)

end Step

section Run

variable {s s' : WSSession η μ} {es : List (SocketEvent η μ)}

theorem Notified.run (h : s.Notified) (hrun : s.run es = some s') : s.WritesHold es ∧ s'.Notified := by
  induction es generalizing s with
  | nil =>
    cases hrun
    exact ⟨trivial, h⟩
  | cons e es ih =>
    obtain ⟨s₁, hstep, hrun⟩ := Option.bind_eq_some_iff.mp hrun
    obtain ⟨hholds, hnotified⟩ := ih (h.step hstep) hrun
    refine ⟨⟨fun _ _ => h.closed, fun s₂ hs₂ => ?_⟩, hnotified⟩
    obtain rfl := Option.some.inj (hstep.symm.trans hs₂)
    exact hholds

theorem Silent.run (h : s.Silent) (hrun : s.run es = some s') : s'.Silent := by
  induction es generalizing s with
  | nil =>
    cases hrun
    exact h
  | cons e es ih =>
    obtain ⟨s₁, hstep, hrun⟩ := Option.bind_eq_some_iff.mp hrun
    exact ih (h.step hstep) hrun

/-- A run closes the session with the handler or without, and a write error decides it. -/
theorem Open.run (h : s.Open) (hrun : s.run es = some s') :
    (s.WritesHold es ∧ (s'.Open ∨ s'.Notified)) ∨ (¬ s.WritesHold es ∧ s'.Silent) := by
  induction es generalizing s with
  | nil =>
    cases hrun
    exact Or.inl ⟨trivial, Or.inl h⟩
  | cons e es ih =>
    obtain ⟨s₁, hstep, hrest⟩ := Option.bind_eq_some_iff.mp hrun
    have hnext : ∀ s₂, s.step e = some s₂ → s₁ = s₂ := fun s₂ hs₂ => Option.some.inj (hstep.symm.trans hs₂)
    by_cases hwrite : ∃ k, e = .writeError k
    · obtain ⟨k, rfl⟩ := hwrite
      refine Or.inr ⟨fun hholds => ?_, (h.writeError hstep).run hrest⟩
      exact Bool.false_ne_true (h.closed.symm.trans (hholds.1 k rfl))
    · have hne : ∀ k, e ≠ .writeError k := fun k he => hwrite ⟨k, he⟩
      have hiff : s.WritesHold (e :: es) ↔ s₁.WritesHold es := by
        refine ⟨fun hholds => hholds.2 s₁ hstep, fun hholds => ⟨fun k he => absurd he (hne k), fun s₂ hs₂ => ?_⟩⟩
        rw [← hnext s₂ hs₂]
        exact hholds
      rw [hiff]
      rcases h.step hstep hne with hopen | hnotified
      · exact ih hopen hrest
      · obtain ⟨hholds, hnotified⟩ := hnotified.run hrest
        exact Or.inl ⟨hholds, Or.inr hnotified⟩

end Run

theorem create_open (closeHandler : Option η) : (create closeHandler : WSSession η μ).Open :=
  ⟨rfl, rfl, fun he => (by cases he), fun _ => List.not_mem_nil⟩

/-- Once the read loop has ended, the registered handler has run exactly once if and only if no write
failed while the session was not closed. -/
theorem handler_runs_once_iff {closeHandler : Option η} {es : List (SocketEvent η μ)} {s : WSSession η μ}
    (hrun : (create closeHandler).run es = some s) (hended : s.reader = .ended) {handler : η}
    (hregistered : s.handler = some handler) :
    s.ran = [handler] ↔ (create closeHandler : WSSession η μ).WritesHold es := by
  rcases (create_open closeHandler).run hrun with ⟨hholds, hopen | hnotified⟩ | ⟨hfails, hsilent⟩
  · exact absurd hended hopen.reader
  · have hran : s.ran = [handler] := by rw [hnotified.ran, hregistered, Option.toList_some]
    exact ⟨fun _ => hholds, fun _ => hran⟩
  · refine ⟨fun hran => ?_, fun hholds => absurd hholds hfails⟩
    rw [hsilent.ran] at hran
    cases hran

section Samples

/-- `close` is called while a read is awaited. -/
def sampleClose : List (SocketEvent String Nat) := [.accepted (some "logout"), .close, .runs 0, .readError]

theorem sample_close :
    ∃ s, (create none).run sampleClose = some s ∧ s.reader = .ended ∧ s.ran = ["logout"] := by
  refine ⟨_, rfl, rfl, ?_⟩
  refine (@handler_runs_once_iff _ _ none sampleClose _ rfl rfl _ rfl).mpr ?_
  simp [sampleClose, WritesHold]

/-- The peer is gone: first a write fails, then the read. -/
def sampleReset : List (SocketEvent String Nat) :=
  [.accepted (some "logout"), .send 0, .runs 0, .runs 0, .writeError 0, .readError]

/-- The handler of a connection that a write finds broken never runs. -/
theorem handler_never_runs : ¬ ∀ (closeHandler : Option String) (es : List (SocketEvent String Nat))
    (s : WSSession String Nat), (create closeHandler).run es = some s → s.reader = .ended →
      ∀ handler, s.handler = some handler → s.ran = [handler] := by
  intro h
  have hran := h none sampleReset _ rfl rfl "logout" rfl
  cases hran

end Samples

end WSSession

end Exchange.Gateway
