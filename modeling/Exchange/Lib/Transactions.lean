import Mathlib.Data.List.Basic

/-!
# A connection to a store with transactions

Statements that succeed, fail, or fail and take the open transaction with them, on a
connection that may have a transaction open. A statement with none open is a transaction of its
own. `COMMIT` that fails leaves the transaction open: the statements that come next are a part
of it.

A script of statements whose results nobody looks at is all or nothing in two cases: every
statement takes hold (`commit_done`), or none of them does at the end (`commit_idle`). What takes
hold at the end can be read off what becomes of the statements (`lasting`); it does not depend on
what they write.
-/

namespace Exchange.Lib

/-- What becomes of a statement. -/
inductive Fate
  | done
  /-- It fails, and writes nothing. -/
  | failed
  /-- It fails, and a transaction that is open is rolled back. -/
  | undone
  deriving DecidableEq, Repr

/-- What is on the disk, and the transaction that is open, with what it has made of the disk. -/
structure Connection (σ : Type) where
  disk : σ
  work : Option σ

namespace Connection

variable {σ : Type}

/-- What a query on this connection sees. -/
def view (c : Connection σ) : σ := c.work.getD c.disk

/-- `BEGIN`, which fails within a transaction. -/
def start (c : Connection σ) (fate : Fate) : Connection σ :=
  match fate, c.work with
  | .done, none => ⟨c.disk, some c.disk⟩
  | .undone, _ => ⟨c.disk, none⟩
  | _, _ => c

/-- A statement. -/
def exec (c : Connection σ) (fate : Fate) (stmt : σ → σ) : Connection σ :=
  match fate, c.work with
  | .done, some w => ⟨c.disk, some (stmt w)⟩
  | .done, none => ⟨stmt c.disk, none⟩
  | .failed, _ => c
  | .undone, _ => ⟨c.disk, none⟩

/-- One statement after the other. -/
def run (c : Connection σ) (script : List (Fate × (σ → σ))) : Connection σ :=
  script.foldl (fun c s => c.exec s.1 s.2) c

/-- `COMMIT`. -/
def commit (c : Connection σ) (fate : Fate) : Connection σ :=
  match fate with
  | .done => ⟨c.view, none⟩
  | .failed => c
  | .undone => ⟨c.disk, none⟩

/-- The connection ends. -/
def close (c : Connection σ) : Connection σ := ⟨c.disk, none⟩

@[simp]
theorem view_close (c : Connection σ) : c.close.view = c.disk := rfl

/-! ## A script that is all or nothing -/

/-- Of the statements with these fates one has taken hold at the end, with a transaction open
before them or not. -/
def lasting : Bool → List Fate → Bool
  | _, [] => false
  | inWork, .done :: fates => !(inWork && fates.contains .undone) || lasting inWork fates
  | inWork, .failed :: fates => lasting inWork fates
  | _, .undone :: fates => lasting false fates

/-- What `COMMIT` does to the statements before it. -/
def commitFate (fate : Fate) : Fate := if fate = .undone then .undone else .failed

/-- A script runs statement by statement. -/
theorem run_cons (c : Connection σ) (s : Fate × (σ → σ)) (script : List (Fate × (σ → σ))) :
    c.run (s :: script) = (c.exec s.1 s.2).run script := rfl

/-- Every statement succeeds. -/
theorem run_done (c : Connection σ) {script : List (Fate × (σ → σ))} (h : ∀ s ∈ script, s.1 = .done) :
    (c.run script).view = script.foldl (fun x s => s.2 x) c.view ∧
      (c.run script).work.isSome = c.work.isSome ∧
      (c.work.isSome = true → (c.run script).disk = c.disk) := by
  induction script generalizing c with
  | nil => exact ⟨rfl, rfl, fun _ => rfl⟩
  | cons s script ih =>
    obtain ⟨hs, hrest⟩ := List.forall_mem_cons.mp h
    obtain ⟨hview, hwork, hdisk⟩ := ih (c.exec s.1 s.2) hrest
    rw [run_cons, List.foldl_cons, hview, hwork]
    rw [hs] at hdisk ⊢
    obtain ⟨disk, work⟩ := c
    cases work with
    | none => exact ⟨rfl, rfl, fun h => by cases h⟩
    | some w => exact ⟨rfl, rfl, fun _ => hdisk rfl⟩

/-- Every statement succeeds, and `COMMIT` does not roll them back. -/
theorem commit_done (c : Connection σ) {script : List (Fate × (σ → σ))} {fate : Fate}
    (h : ∀ s ∈ script, s.1 = .done) (hcommit : c.work.isSome = true → fate ≠ .undone) :
    ((c.run script).commit fate).view = script.foldl (fun x s => s.2 x) c.view ∧
      (((c.run script).commit fate).disk = c.disk ∨
        ((c.run script).commit fate).disk = ((c.run script).commit fate).view) := by
  obtain ⟨hview, hwork, hdisk⟩ := c.run_done h
  rw [← hview]
  cases fate with
  | done => exact ⟨rfl, Or.inr rfl⟩
  | failed =>
    refine ⟨rfl, ?_⟩
    cases hopen : c.work.isSome with
    | true => exact Or.inl (hdisk hopen)
    | false =>
      rw [hopen, Option.isSome_eq_false_iff, Option.isNone_iff_eq_none] at hwork
      right
      show (c.run script).disk = (c.run script).view
      unfold view
      rw [hwork]
      rfl
  | undone =>
    have hopen : c.work = none := by
      rw [← Option.not_isSome_iff_eq_none]
      exact fun h => hcommit h rfl
    rw [hopen, Option.isSome_none, Option.isSome_eq_false_iff, Option.isNone_iff_eq_none] at hwork
    unfold commit view
    dsimp only
    rw [hwork]
    exact ⟨rfl, Or.inr rfl⟩

/-- With no transaction open, a script of which nothing has taken hold has done nothing. -/
theorem commit_idle_closed {script : List (Fate × (σ → σ))} {fate : Fate} (disk : σ)
    (h : lasting false (script.map Prod.fst ++ [commitFate fate]) = false) :
    ((Connection.mk disk none).run script).commit fate = ⟨disk, none⟩ := by
  induction script with
  | nil => cases fate <;> rfl
  | cons s script ih =>
    obtain ⟨f, stmt⟩ := s
    rw [run_cons]
    cases f with
    | done => cases h
    | failed => exact ih h
    | undone => exact ih h

/-- What is rolled back later on is gone, whatever the transaction has by then. -/
theorem commit_withdrawn {script : List (Fate × (σ → σ))} {fate : Fate} (disk w : σ)
    (hundone : (script.map Prod.fst ++ [commitFate fate]).contains .undone = true)
    (h : lasting true (script.map Prod.fst ++ [commitFate fate]) = false) :
    ((Connection.mk disk (some w)).run script).commit fate = ⟨disk, none⟩ := by
  induction script generalizing w with
  | nil =>
    cases fate with
    | undone => rfl
    | done => cases hundone
    | failed => cases hundone
  | cons s script ih =>
    obtain ⟨f, stmt⟩ := s
    rw [run_cons]
    cases f with
    | done => exact ih (stmt w) hundone (Bool.or_eq_false_iff.mp h).2
    | failed => exact ih w hundone h
    | undone => exact commit_idle_closed disk h

/-- With a transaction open, it is rolled back, or it stays as it was up to `COMMIT`. -/
theorem commit_idle_open {script : List (Fate × (σ → σ))} {fate : Fate} (disk w : σ)
    (h : lasting true (script.map Prod.fst ++ [commitFate fate]) = false) :
    ((Connection.mk disk (some w)).run script).commit fate = ⟨disk, none⟩ ∨
      ((Connection.mk disk (some w)).run script).commit fate =
        (Connection.mk disk (some w)).commit fate := by
  induction script with
  | nil => exact Or.inr rfl
  | cons s script ih =>
    obtain ⟨f, stmt⟩ := s
    cases f with
    | done =>
      obtain ⟨hundone, hlast⟩ := Bool.or_eq_false_iff.mp h
      rw [Bool.not_eq_false', Bool.true_and] at hundone
      exact Or.inl (commit_withdrawn disk (stmt w) hundone hlast)
    | failed => exact ih h
    | undone => exact Or.inl (commit_idle_closed disk h)

/-- Nothing of a script has taken hold: it has done nothing, or a transaction that was open has
been committed or rolled back. -/
theorem commit_idle (c : Connection σ) {script : List (Fate × (σ → σ))} {fate : Fate}
    (h : lasting c.work.isSome (script.map Prod.fst ++ [commitFate fate]) = false) :
    (((c.run script).commit fate).view = c.view ∨ ((c.run script).commit fate).view = c.disk) ∧
      (((c.run script).commit fate).disk = c.disk ∨
        ((c.run script).commit fate).disk = ((c.run script).commit fate).view) := by
  obtain ⟨disk, work⟩ := c
  cases work with
  | none =>
    rw [commit_idle_closed disk h]
    exact ⟨Or.inl rfl, Or.inl rfl⟩
  | some w =>
    rcases commit_idle_open disk w h with heq | heq
    · rw [heq]
      exact ⟨Or.inr rfl, Or.inl rfl⟩
    · rw [heq]
      cases fate with
      | done => exact ⟨Or.inl rfl, Or.inr rfl⟩
      | failed => exact ⟨Or.inl rfl, Or.inl rfl⟩
      | undone => exact ⟨Or.inr rfl, Or.inl rfl⟩

end Connection

end Exchange.Lib
