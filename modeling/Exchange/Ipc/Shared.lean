import Exchange.Ipc.LastFile

/-!
# Several writers on one directory

Each matching engine opens a writer of its own on the directory of the journal. A writer looks for
the end of the journal once, when it is constructed, and from then on it knows of its own records
only. The next one it appends goes where the journal ended when it last looked, over whatever
another writer has put there.

An `append` and a construction are one step each. As long as a writer appends only if no other one
has since it last looked, the writers take turns as one writer does (`Shared.Run.single`), and a
reader gets what they appended (`shared_journal`).
-/

namespace Exchange.MmapLog

open Lib

/-- The directory, its writers and a reader. A writer comes with the number of records there were
when it was constructed, or when it last appended; `log` is what was appended, and by which writer. -/
structure Shared where
  dir : Dir
  writers : List (MmapWriter × Nat)
  reader : Option MmapReader
  rolled : Nat
  log : List (Nat × Payload)
  returned : List Payload

namespace Shared

/-- An empty directory. -/
def init : Shared := ⟨∅, [], none, 0, [], []⟩

/-- The `k`-th writer appends. -/
def append (s : Shared) (k : Nat) (w w' : MmapWriter) (d : Dir) (p : Payload) : Shared :=
  { s with
    dir := d
    writers := s.writers.set k (w', s.log.length + 1)
    rolled := if w.rollsOver p.length then s.rolled + 1 else s.rolled
    log := s.log ++ [(k, p)] }

/-- The states reached if the writers append only where `K` allows it. -/
inductive Run (K : Shared → Nat → Prop) (maxFileSize : Nat) : Shared → Prop
  | init : Run K maxFileSize .init
  | construct {s : Shared} {w : MmapWriter} {d : Dir} (h : Run K maxFileSize s)
      (hrun : MmapWriter.create maxFileSize s.dir = some (w, d)) :
      Run K maxFileSize { s with
        dir := d
        writers := s.writers ++ [(w, s.log.length)] }
  | append {s : Shared} {k seen : Nat} {w w' : MmapWriter} {p : Payload} {offset : Option Nat} {d : Dir}
      (h : Run K maxFileSize s) (hK : K s k) (hwriter : s.writers[k]? = some (w, seen))
      (hp : Fits maxFileSize p) (hrun : w.append s.dir p = some (offset, w', d)) :
      Run K maxFileSize (s.append k w w' d p)
  | refuse {s : Shared} {k seen : Nat} {w w' : MmapWriter} {p : Payload} {d : Dir}
      (h : Run K maxFileSize s) (hwriter : s.writers[k]? = some (w, seen))
      (hrun : w.append s.dir p = some (none, w', d)) :
      Run K maxFileSize { s with
        dir := d
        writers := s.writers.set k (w', seen) }
  | attach {s : Shared} (h : Run K maxFileSize s) (hreader : s.reader = none) :
      Run K maxFileSize { s with reader := some (.create s.dir) }
  | read {s : Shared} {r r' : MmapReader} {fuel : Nat} {res : Option Payload} (h : Run K maxFileSize s)
      (hreader : s.reader = some r) (hrun : r.readNext s.dir fuel = some (res, r')) :
      Run K maxFileSize { s with
        reader := some r'
        returned := s.returned ++ res.toList }

/-- No writer has appended since the `k`-th was constructed, or since it appended itself. -/
def UpToDate (s : Shared) (k : Nat) : Prop := (s.writers[k]?).map Prod.snd = some s.log.length

end Shared

section Constructor

variable {maxFileSize : Nat} {sys sys' : Sys} {full full' : List (List Payload)} {cur cur' : List Payload}

/-- Nothing has been added to the journal. -/
theorem Grows.same {d d' : Dir} (h : Grows maxFileSize d d' full full' cur cur')
    (hw : Written maxFileSize sys full cur) (hw' : Written maxFileSize sys' full' cur')
    (hrolled : sys'.rolled = sys.rolled) (happended : sys'.appended = sys.appended) :
    full' = full ∧ cur' = cur := by
  obtain rfl : full = full' := h.files.eq_of_length (by rw [← hw.rolled, ← hw'.rolled, hrolled])
  rw [hw.appended, hw'.appended] at happended
  exact ⟨rfl, List.append_cancel_left happended⟩

/-- A writer that is between two appends is where a new one comes to be. -/
theorem Sys.Run.reopen (h : Sys.Run maxFileSize sys) (hsmall : sys.rolled < 2 ^ 32) {w w' : MmapWriter}
    {d : Dir} (hphase : sys.phase = .ready w) (hrun : MmapWriter.create maxFileSize sys.dir = some (w', d)) :
    w' = w ∧ Sys.Run maxFileSize { sys with
      dir := d
      phase := .ready w } := by
  obtain ⟨full, cur, hinv⟩ := h.inv hsmall
  have hw := hinv.written
  have hok := hw.phase
  rw [hphase] at hok
  obtain ⟨-, f, off, -, rfl, htail⟩ := hok
  have hstop := h.step (.stop hphase)
  have hnew := hstop.create rfl hrun
  -- the writer stops, and another looks for the end
  obtain ⟨full₁, cur₁, hw₁, hg₁⟩ := hw.step (.stop hphase) hsmall
  obtain ⟨rfl, rfl⟩ := hg₁.same hw hw₁ rfl rfl
  obtain ⟨full₂, cur₂, hw₂, hg₂⟩ := hw₁.step (.start rfl) hsmall
  obtain ⟨rfl, rfl⟩ := hg₂.same hw₁ hw₂ rfl rfl
  obtain ⟨full₃, cur₃, hw₃, hg₃⟩ := hw₂.step (.started rfl hrun) hsmall
  obtain ⟨rfl, rfl⟩ := hg₃.same hw₂ hw₃ rfl rfl
  obtain ⟨-, f', off', -, rfl, htail'⟩ := hw₃.phase
  have hoff := htail.chain.extent_eq
  have hoff' := htail'.chain.extent_eq
  obtain rfl : off' = off := hoff'.trans hoff.symm
  exact ⟨rfl, hnew⟩

end Constructor

/-! ## Writers that take turns -/

/-- The journal as one writer would have written it; a writer that is up to date is this one. -/
structure Single (maxFileSize : Nat) (s : Shared) (sys : Sys) : Prop where
  run : Sys.Run maxFileSize sys
  dir : sys.dir = s.dir
  reader : sys.reader = s.reader
  rolled : sys.rolled = s.rolled
  appended : sys.appended = s.log.map Prod.snd
  returned : sys.returned = s.returned
  phase : sys.phase = .down ∨ ∃ w, sys.phase = .ready w
  current : ∀ {k : Nat} {w : MmapWriter}, s.writers[k]? = some (w, s.log.length) → sys.phase = .ready w
  seen : ∀ {k n : Nat} {w : MmapWriter}, s.writers[k]? = some (w, n) → n ≤ s.log.length

section Turns

variable {maxFileSize : Nat} {s : Shared} {sys : Sys}

/-- The only writer opens the directory as one of its own. -/
theorem Single.construct (h : Single maxFileSize s sys) (hsmall : s.rolled < 2 ^ 32) {w : MmapWriter} {d : Dir}
    (hrun : MmapWriter.create maxFileSize s.dir = some (w, d)) :
    Single maxFileSize { s with
      dir := d
      writers := s.writers ++ [(w, s.log.length)] } { sys with
      dir := d
      phase := .ready w } := by
  rw [← h.dir] at hrun
  have hnew : Sys.Run maxFileSize { sys with
      dir := d
      phase := .ready w } ∧ ∀ {k : Nat} {w' : MmapWriter},
        s.writers[k]? = some (w', s.log.length) → w' = w := by
    rcases h.phase with hdown | ⟨w₀, hready⟩
    · refine ⟨h.run.create hdown hrun, fun hk => ?_⟩
      cases hdown.symm.trans (h.current hk)
    · obtain ⟨rfl, hagain⟩ := h.run.reopen (h.rolled ▸ hsmall) hready hrun
      refine ⟨hagain, fun hk => ?_⟩
      have hsame := hready.symm.trans (h.current hk)
      exact (Phase.ready.inj hsame).symm
  -- the writers are the ones there were, and the new one
  have hcases : ∀ {k : Nat} {x : MmapWriter × Nat}, (s.writers ++ [(w, s.log.length)])[k]? = some x →
      s.writers[k]? = some x ∨ x = (w, s.log.length) := by
    intro k x hx
    rcases Nat.lt_or_ge k s.writers.length with hlt | hge
    · rw [List.getElem?_append_left hlt] at hx
      exact Or.inl hx
    · rw [List.getElem?_append_right hge] at hx
      exact Or.inr (List.mem_singleton.mp (List.mem_of_getElem? hx))
  refine ⟨hnew.1, rfl, h.reader, h.rolled, h.appended, h.returned, Or.inr ⟨w, rfl⟩, fun {k w'} hk => ?_,
    fun {k n w'} hk => ?_⟩
  · rcases hcases hk with hold | hself
    · rw [hnew.2 hold]
    · rw [(Prod.mk.inj hself).1]
  · rcases hcases hk with hold | hself
    · exact h.seen hold
    · rw [(Prod.mk.inj hself).2]

theorem Single.append (h : Single maxFileSize s sys) {k : Nat} {w w' : MmapWriter} {p : Payload}
    {offset : Option Nat} {d : Dir} (hwriter : s.writers[k]? = some (w, s.log.length))
    (hp : Fits maxFileSize p) (hrun : w.append s.dir p = some (offset, w', d)) :
    Single maxFileSize (s.append k w w' d p) { sys with
      dir := d
      phase := .ready w'
      rolled := if w.rollsOver p.length then sys.rolled + 1 else sys.rolled
      appended := sys.appended ++ [p] } := by
  have hready := h.current hwriter
  rw [← h.dir] at hrun
  have hlen : (s.log ++ [(k, p)]).length = s.log.length + 1 := by
    rw [List.length_append, List.length_singleton]
  -- no other writer has seen the new record
  have hcases : ∀ {j n : Nat} {x : MmapWriter}, (s.writers.set k (w', s.log.length + 1))[j]? = some (x, n) →
      (n = s.log.length + 1 ∧ x = w') ∨ n ≤ s.log.length := by
    intro j n x hx
    by_cases hj : k = j
    · rw [← hj, List.getElem?_set_self (List.getElem?_eq_some_iff.mp hwriter).1] at hx
      obtain ⟨rfl, rfl⟩ := Prod.mk.inj (Option.some.inj hx)
      exact Or.inl ⟨rfl, rfl⟩
    · rw [List.getElem?_set_ne hj] at hx
      exact Or.inr (h.seen hx)
  refine ⟨h.run.append hready hp hrun, rfl, h.reader, ?_, ?_, h.returned, Or.inr ⟨w', rfl⟩, fun {j x} hj => ?_,
    fun {j n x} hj => ?_⟩
  · show _ = if w.rollsOver p.length then s.rolled + 1 else s.rolled
    rw [h.rolled]
  · show sys.appended ++ [p] = (s.log ++ [(k, p)]).map Prod.snd
    rw [h.appended, List.map_append]
    rfl
  · rw [show (s.append k w w' d p).log.length = s.log.length + 1 from hlen] at hj
    rcases hcases hj with ⟨-, rfl⟩ | hle
    · rfl
    · exact absurd hle (by omega)
  · rw [show (s.append k w w' d p).log.length = s.log.length + 1 from hlen]
    rcases hcases hj with ⟨rfl, -⟩ | hle
    · exact le_rfl
    · exact Nat.le_succ_of_le hle

/-- Rollovers are not undone. -/
theorem Shared.append_rolled_le (s : Shared) (k : Nat) (w w' : MmapWriter) (d : Dir) (p : Payload) :
    s.rolled ≤ (s.append k w w' d p).rolled := by
  unfold Shared.append
  dsimp only
  split
  · exact Nat.le_succ _
  · exact le_rfl

/-- Writers that append only when they are up to date are one writer. -/
theorem Shared.Run.single (h : Shared.Run Shared.UpToDate maxFileSize s) (hsmall : s.rolled < 2 ^ 32) :
    ∃ sys, Single maxFileSize s sys := by
  induction h with
  | init =>
    refine ⟨.init, .init, rfl, rfl, rfl, rfl, rfl, Or.inl rfl, fun hk => ?_, fun hk => ?_⟩
    · cases hk
    · cases hk
  | construct _ hrun ih =>
    obtain ⟨sys, hsys⟩ := ih hsmall
    exact ⟨_, hsys.construct hsmall hrun⟩
  | @append s k seen w w' p offset d _ hK hwriter hp hrun ih =>
    obtain ⟨sys, hsys⟩ := ih (Nat.lt_of_le_of_lt (s.append_rolled_le k w w' d p) hsmall)
    have hseen : seen = s.log.length := by
      unfold Shared.UpToDate at hK
      rw [hwriter] at hK
      exact Option.some.inj hK
    rw [hseen] at hwriter
    exact ⟨_, hsys.append hwriter hp hrun⟩
  | @refuse s k seen w w' p d _ hwriter hrun ih =>
    obtain ⟨sys, hsys⟩ := ih hsmall
    obtain ⟨rfl, rfl⟩ := append_refused hrun
    have hset : s.writers.set k (w', seen) = s.writers := by
      obtain ⟨hlt, hget⟩ := List.getElem?_eq_some_iff.mp hwriter
      rw [← hget, List.set_getElem_self]
    rw [hset]
    exact ⟨sys, hsys⟩
  | attach _ hreader ih =>
    obtain ⟨sys, hsys⟩ := ih hsmall
    have hrun := hsys.run.step (.attach (hsys.reader.trans hreader))
    refine ⟨_, hrun, hsys.dir, ?_, hsys.rolled, hsys.appended, hsys.returned, hsys.phase, hsys.current, hsys.seen⟩
    dsimp only
    rw [hsys.dir]
  | read _ hreader hrun ih =>
    obtain ⟨sys, hsys⟩ := ih hsmall
    rw [← hsys.dir] at hrun
    have hstep := hsys.run.step (.read (hsys.reader.trans hreader) hrun)
    refine ⟨_, hstep, hsys.dir, rfl, hsys.rolled, hsys.appended, ?_, hsys.phase, hsys.current, hsys.seen⟩
    dsimp only
    rw [hsys.returned]

end Turns

/-- Each record once, and those of each writer in its order. -/
def Interleaves (log : List (Nat × Payload)) (got : List Payload) : Prop :=
  ∃ tagged : List (Nat × Payload), tagged.map Prod.snd = got ∧
    ∀ k, tagged.filter (fun x => x.1 = k) = log.filter (fun x => x.1 = k)

/-- What was returned to the reader, and what it gets before the first `false`, are the records of
all the writers. -/
theorem shared_journal {maxFileSize : Nat} {s : Shared} (h : Shared.Run Shared.UpToDate maxFileSize s)
    (hsmall : s.rolled < 2 ^ 32) {r : MmapReader} (hr : s.reader = some r) {fuel : Nat}
    (hfuel : s.rolled + 1 < fuel) :
    ∃ rest, Drains s.dir fuel r rest ∧ Interleaves s.log (s.returned ++ rest) := by
  obtain ⟨sys, hsys⟩ := h.single hsmall
  obtain ⟨full, cur, hinv⟩ := hsys.run.inv (hsys.rolled ▸ hsmall)
  have hw := hinv.written
  have hlen : full.length = s.rolled := hw.rolled.symm.trans hsys.rolled
  have hat := hinv.reader r (hsys.reader.trans hr)
  rw [hsys.returned] at hat
  obtain ⟨rest, hrest⟩ := hat.within
  refine ⟨rest, ?_, s.log, ?_, fun k => rfl⟩
  · rw [← hsys.dir]
    exact hat.drains hw.published (hlen ▸ hsmall) (hlen ▸ hfuel) rest hrest.symm
  · rw [hrest, ← hw.appended, hsys.appended]

/-! ## Two engines -/

/-- A reader gets what it gets. -/
theorem Drains.unique {d : Dir} {fuel : Nat} : ∀ {ps qs : List Payload} {r : MmapReader},
    Drains d fuel r ps → Drains d fuel r qs → ps = qs
  | [], [], _, _, _ => rfl
  | [], _ :: _, _, ⟨_, h⟩, ⟨_, h', _⟩ => by cases h.symm.trans h'
  | _ :: _, [], _, ⟨_, h, _⟩, ⟨_, h'⟩ => by cases h.symm.trans h'
  | p :: ps, q :: qs, r, ⟨r₁, h, hrest⟩, ⟨r₂, h', hrest'⟩ => by
    obtain ⟨hpq, rfl⟩ := Prod.mk.inj (Option.some.inj (h.symm.trans h'))
    obtain rfl := Option.some.inj hpq
    rw [Drains.unique hrest hrest']

instance (maxFileSize : Nat) (p : Payload) : Decidable (Fits maxFileSize p) :=
  decidable_of_iff (0 < p.length ∧ 8 + p.length ≤ maxFileSize - 8 ∧ p.length < eofMarker)
    ⟨fun h => ⟨h.1, h.2.1, h.2.2⟩, fun h => ⟨h.pos, h.room, h.lt⟩⟩

instance (s : Shared) (k : Nat) : Decidable (s.UpToDate k) :=
  inferInstanceAs (Decidable ((s.writers[k]?).map Prod.snd = some s.log.length))

namespace Shared

/-- The records of writers, appended in this order. -/
def appendAll (K : Shared → Nat → Bool) (maxFileSize : Nat) : List (Nat × Payload) → Shared → Option Shared
  | [], s => some s
  | (k, p) :: rest, s =>
    (s.writers[k]?).bind fun (w, _) =>
      if K s k ∧ Fits maxFileSize p then
        (w.append s.dir p).bind fun (_, w', d) => appendAll K maxFileSize rest (s.append k w w' d p)
      else none

/-- By induction on the records that the condition lets through. -/
theorem Run.appendAll {K' : Shared → Nat → Prop} {K : Shared → Nat → Bool}
    (hK : ∀ s k, K s k = true → K' s k) {maxFileSize : Nat} : ∀ {rest : List (Nat × Payload)} {s s' : Shared},
      Run K' maxFileSize s → Shared.appendAll K maxFileSize rest s = some s' → Run K' maxFileSize s'
  | [], s, s', h, he => by
    obtain rfl := Option.some.inj he
    exact h
  | (k, p) :: rest, s, s', h, he => by
    rw [Shared.appendAll] at he
    obtain ⟨⟨w, seen⟩, hwriter, he⟩ := Option.bind_eq_some_iff.mp he
    dsimp only at he
    split at he
    · rename_i hstep
      obtain ⟨⟨offset, w', d⟩, hrun, he⟩ := Option.bind_eq_some_iff.mp he
      exact (h.append (hK s k hstep.1) hwriter hstep.2 hrun).appendAll hK he
    · cases he

/-- Two writers on an empty directory, a reader, and their records. -/
def twoWriters (K : Shared → Nat → Bool) (log : List (Nat × Payload)) : Option Shared :=
  (MmapWriter.create 64 ∅).bind fun (w, d) =>
    (MmapWriter.create 64 d).bind fun (w', d') =>
      appendAll K 64 log ⟨d', [(w, 0), (w', 0)], some (.create d'), 0, [], []⟩

/-- Two writers on one directory, in a run. -/
theorem Run.twoWriters {K' : Shared → Nat → Prop} {K : Shared → Nat → Bool}
    (hK : ∀ s k, K s k = true → K' s k) {log : List (Nat × Payload)} {s : Shared}
    (h : Shared.twoWriters K log = some s) : Run K' 64 s := by
  unfold Shared.twoWriters at h
  obtain ⟨⟨w, d⟩, hfirst, h⟩ := Option.bind_eq_some_iff.mp h
  obtain ⟨⟨w', d'⟩, hsecond, h⟩ := Option.bind_eq_some_iff.mp h
  have hopened := ((Run.init (K := K')).construct hfirst).construct hsecond
  exact (hopened.attach rfl).appendAll hK h

end Shared

/-- Three records of the first engine, while the second one has none. -/
theorem sample_shared : ∃ s r, Shared.Run Shared.UpToDate 64 s ∧ s.reader = some r ∧
    s.log = [(0, [1]), (0, [2, 3]), (0, [4])] ∧
    ∃ rest, Drains s.dir 3 r rest ∧ Interleaves s.log (s.returned ++ rest) := by
  have htest : (Shared.twoWriters (fun s k => s.UpToDate k) [(0, [1]), (0, [2, 3]), (0, [4])]).any
      (fun s => s.reader.isSome ∧ s.rolled = 0 ∧ s.log = [(0, [1]), (0, [2, 3]), (0, [4])]) = true := by
    decide +kernel
  obtain ⟨s, hs, hP⟩ := (Option.any_eq_true ..).mp htest
  obtain ⟨hreader, hrolled, hlog⟩ := of_decide_eq_true hP
  obtain ⟨r, hr⟩ := Option.isSome_iff_exists.mp hreader
  have hrun : Shared.Run Shared.UpToDate 64 s := .twoWriters (fun _ _ h => of_decide_eq_true h) hs
  refine ⟨s, r, hrun, hr, hlog, shared_journal hrun ?_ hr ?_⟩
  · rw [hrolled]
    decide
  · rw [hrolled]
    decide

/-- One record of each engine: the second is where the first was, and the reader gets that one
only. -/
theorem writers_overwrite : ∃ s r, Shared.Run (fun _ _ => True) 64 s ∧ s.reader = some r ∧
    s.rolled = 0 ∧ s.log = [(0, [1]), (1, [2])] ∧ Drains s.dir 3 r [[2]] ∧
    ¬ ∃ rest, Drains s.dir 3 r rest ∧ Interleaves s.log (s.returned ++ rest) := by
  have htest : (Shared.twoWriters (fun _ _ => true) [(0, [1]), (1, [2])]).any (fun s =>
      s.rolled = 0 ∧ s.log = [(0, [1]), (1, [2])] ∧ s.returned = [] ∧ s.reader.any fun r =>
        (r.readNext s.dir 3).any fun x => x.1 = some [2] ∧
          (x.2.readNext s.dir 3).any fun y => y.1 = none) = true := by decide +kernel
  obtain ⟨s, hs, hP⟩ := (Option.any_eq_true ..).mp htest
  obtain ⟨hrolled, hlog, hreturned, hreader⟩ := of_decide_eq_true hP
  obtain ⟨r, hr, hreads⟩ := (Option.any_eq_true ..).mp hreader
  obtain ⟨⟨first, r'⟩, hfirst, hreads⟩ := (Option.any_eq_true ..).mp hreads
  obtain ⟨rfl, hreads⟩ := of_decide_eq_true hreads
  obtain ⟨⟨second, r''⟩, hsecond, hreads⟩ := (Option.any_eq_true ..).mp hreads
  obtain rfl := of_decide_eq_true hreads
  have hrun : Shared.Run (fun _ _ => True) 64 s := .twoWriters (fun _ _ _ => trivial) hs
  have hdrains : Drains s.dir 3 r [[2]] := ⟨r', hfirst, r'', hsecond⟩
  refine ⟨s, r, hrun, hr, hrolled, hlog, hdrains, fun ⟨rest, hrest, tagged, hmap, hfilter⟩ => ?_⟩
  obtain rfl := hdrains.unique hrest
  -- there are two records in the log, and one in what was read
  have hzero : (0, [1]) ∈ tagged.filter (fun x => x.1 = 0) := by
    rw [hfilter, hlog]
    decide
  have hread : [1] ∈ tagged.map Prod.snd :=
    List.mem_map.mpr ⟨(0, [1]), List.mem_of_mem_filter hzero, rfl⟩
  rw [hmap, hreturned] at hread
  exact absurd hread (by decide)

end Exchange.MmapLog
