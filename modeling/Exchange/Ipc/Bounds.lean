import Exchange.Ipc.Writing

/-!
# What `reserve` touches

`reserve` compares what is left of the file with what the record needs once, before it goes on to the
next file, and not again for the new one. `touches` lists the bytes it stores to and those it hands out
for the payload: the published length that becomes the marker, the header and the payload. Nothing else
of a file is changed (`reserve_frame`).

All of it is within the file, and so is the next marker, if the writer's offset leaves room for a header
and the record for one more (`reserve_stays_iff`). A writer that begins so stays so as long as its
records do (`calls_stay_iff`).
-/

namespace Exchange.MmapLog

open Lib

/-- Bytes of the mapping of a file. -/
structure Span where
  file : Nat
  offset : Nat
  length : Nat
  deriving DecidableEq, Repr

/-- An address of the span. -/
def Span.Has (s : Span) (file a : Nat) : Prop :=
  s.file = file ∧ s.offset ≤ a ∧ a < s.offset + s.length

namespace MmapWriter

/-- `reserve`, for any length: the place of the payload, or none for `nullptr`. -/
def reserveAny (w : MmapWriter) (d : Dir) (len : Nat) : Option (Option Nat × MmapWriter × Dir) :=
  if len = 0 ∨ len = eofMarker then some (none, w, d)
  else do
    let (w, d) ← w.reserve d len
    some (some (w.currentOffset - len), w, d)

/-- What `reserve` stores to and what it hands out. -/
def touches (w : MmapWriter) (len : Nat) : List Span :=
  if w.rollsOver len then
    [⟨w.currentFileIndex, w.currentOffset + 4, 4⟩, ⟨nextIndex w.currentFileIndex, 0, 8⟩,
      ⟨nextIndex w.currentFileIndex, 8, len⟩]
  else [⟨w.currentFileIndex, w.currentOffset, 8⟩, ⟨w.currentFileIndex, w.currentOffset + 8, len⟩]

end MmapWriter

namespace Dir

variable {d : Dir} {k i a : Nat} {f : File} {g : Bytes → Bytes}

theorem edit_frame (hf : d.lookup k = some f) (hg : k = i → g f.bytes a = f.bytes a) :
    ∃ f', (d.edit i g).lookup k = some f' ∧ f'.size = f.size ∧ f'.bytes a = f.bytes a := by
  by_cases hk : k = i
  · subst hk
    exact ⟨_, lookup_edit hf, rfl, hg rfl⟩
  · exact ⟨f, (lookup_edit_ne hk).trans hf, rfl, rfl⟩

theorem create_frame (hf : d.lookup k = some f) : (d.create i).lookup k = some f := by
  by_cases hk : k = i
  · subst hk
    rw [create_eq hf, hf]
  · rw [lookup_create_ne hk, hf]

theorem truncate_frame (size : Nat) (hf : d.lookup k = some f) (ha : a < f.size) :
    ∃ f', (d.truncate i size).lookup k = some f' ∧ f'.bytes a = f.bytes a := by
  by_cases hk : k = i
  · subst hk
    exact ⟨_, lookup_truncate hf, if_pos ha⟩
  · exact ⟨f, (lookup_truncate_ne hk).trans hf, rfl⟩

end Dir

section Reserve

variable {w w' : MmapWriter} {d d' : Dir} {len : Nat}

/-- `reserve` in the file, or in the next one. -/
theorem reserve_cases (h : w.reserve d len = some (w', d')) :
    (w.rollsOver len = false ∧ (w', d') = w.claim d len) ∨
      (w.rollsOver len = true ∧
        (w', d') = MmapWriter.claim ⟨w.maxFileSize, nextIndex w.currentFileIndex, 0⟩
          (((w.markEof d).create (nextIndex w.currentFileIndex)).truncate (nextIndex w.currentFileIndex)
            w.maxFileSize) len) := by
  unfold MmapWriter.reserve MmapWriter.makeRoom at h
  obtain ⟨⟨w₁, d₁⟩, hroom, hclaim⟩ := Option.bind_eq_some_iff.mp h
  split at hroom
  · rename_i hroll
    unfold MmapWriter.openFile MmapWriter.sizeFile at hroom
    split at hroom
    · cases hroom
    · cases hroom
      exact Or.inr ⟨hroll, (Option.some.inj hclaim).symm⟩
  · rename_i hroll
    cases hroom
    exact Or.inl ⟨by simpa using hroll, (Option.some.inj hclaim).symm⟩

/-- The rest of the files is as it was. -/
theorem reserve_frame (h : w.reserve d len = some (w', d')) {k a : Nat} {f : File}
    (hf : d.lookup k = some f) (ha : a < f.size) (hout : ∀ s ∈ w.touches len, ¬ s.Has k a) :
    ∃ f', d'.lookup k = some f' ∧ f'.bytes a = f.bytes a := by
  have hclaim : ∀ (m : Bytes) (off : Nat), ¬ (off ≤ a ∧ a < off + 8) →
      ((m.store32 off len).store32 (off + 4) 0) a = m a := by
    intro m off hnot
    have hsame : SameOn ((m.store32 off len).store32 (off + 4) 0) m a (a + 1) :=
      (SameOn.store32 _ _ (by omega)).trans (SameOn.store32 _ _ (by omega))
    exact hsame a le_rfl (Nat.lt_succ_self a)
  unfold MmapWriter.touches at hout
  rcases reserve_cases h with ⟨hroll, he⟩ | ⟨hroll, he⟩
  · obtain ⟨rfl, rfl⟩ := Prod.mk.inj he
    rw [hroll, if_neg Bool.false_ne_true] at hout
    obtain ⟨f', hf', -, hbyte⟩ := Dir.edit_frame
      (g := fun m => (m.store32 w.currentOffset len).store32 (w.currentOffset + 4) 0) hf
      (fun hk => hclaim f.bytes w.currentOffset fun hin => hout _ List.mem_cons_self ⟨hk.symm, hin⟩)
    exact ⟨f', hf', hbyte⟩
  · obtain ⟨rfl, rfl⟩ := Prod.mk.inj he
    rw [hroll, if_pos rfl] at hout
    -- the marker, the new file, and its header
    obtain ⟨f₁, hf₁, hsize, hbyte₁⟩ := Dir.edit_frame
      (g := fun m => m.store32 (w.currentOffset + 4) eofMarker) hf (fun hk => by
        have hnot : ¬ (w.currentOffset + 4 ≤ a ∧ a < w.currentOffset + 4 + 4) :=
          fun hin => hout _ List.mem_cons_self ⟨hk.symm, hin⟩
        exact SameOn.store32 _ _ (by omega) a le_rfl (Nat.lt_succ_self a))
    obtain ⟨f₂, hf₂, hbyte₂⟩ := Dir.truncate_frame w.maxFileSize
      (Dir.create_frame (i := nextIndex w.currentFileIndex) hf₁) (i := nextIndex w.currentFileIndex)
      (hsize ▸ ha)
    obtain ⟨f₃, hf₃, -, hbyte₃⟩ := Dir.edit_frame
      (g := fun m => (m.store32 0 len).store32 (0 + 4) 0) hf₂
      (fun hk => hclaim f₂.bytes 0 fun hin =>
        hout _ (List.mem_cons_of_mem _ List.mem_cons_self) ⟨hk.symm, hin⟩)
    exact ⟨f₃, hf₃, hbyte₃.trans (hbyte₂.trans hbyte₁)⟩

end Reserve

/-! ## Calls -/

/-- A call of `reserve`: the writer and the files before it, the length, and what came of it. -/
structure Call where
  before : MmapWriter
  dir : Dir
  len : Nat
  place : Option Nat
  after : MmapWriter
  dir' : Dir

namespace Call

/-- The call returned. -/
def Returned (c : Call) : Prop := c.before.reserveAny c.dir c.len = some (c.place, c.after, c.dir')

/-- It refused and changed nothing, or it touched bytes of the file only and left room for a header. -/
def Stays (maxFileSize : Nat) (c : Call) : Prop :=
  match c.place with
  | none => c.after = c.before ∧ c.dir' = c.dir
  | some _ => (∀ s ∈ c.before.touches c.len, s.offset + s.length ≤ maxFileSize) ∧
      c.after.currentOffset ≤ maxFileSize - 8

end Call

/-- Calls on a writer, one after the other; between two of them the files may change. -/
def MmapWriter.Calls : MmapWriter → List Call → Prop
  | _, [] => True
  | w, c :: cs => c.before = w ∧ c.Returned ∧ Calls c.after cs

section Calls

variable {maxFileSize : Nat} {c : Call}

/-- A length that is admitted is not refused. -/
theorem Call.Returned.reserved (h : c.Returned) (hpos : 0 < c.len) (hlt : c.len < eofMarker) :
    c.before.reserve c.dir c.len = some (c.after, c.dir') ∧
      c.place = some (c.after.currentOffset - c.len) := by
  unfold Returned MmapWriter.reserveAny at h
  rw [if_neg (by omega)] at h
  obtain ⟨⟨w, d⟩, hreserve, he⟩ := Option.bind_eq_some_iff.mp h
  obtain ⟨hplace, hrest⟩ := Prod.mk.inj (Option.some.inj he)
  obtain ⟨rfl, rfl⟩ := Prod.mk.inj hrest
  exact ⟨hreserve, hplace.symm⟩

/-- The space test, for a file with room for two headers. -/
theorem rollsOver_room {w : MmapWriter} (hsize : w.maxFileSize = maxFileSize) (hmin : 16 ≤ maxFileSize)
    (hmax : maxFileSize < 2 ^ 64) (len : Nat) :
    w.rollsOver len = true ↔ maxFileSize < w.currentOffset + (8 + len) + 8 := by
  have hlimit : (maxFileSize + (2 ^ 64 - 8)) % 2 ^ 64 = maxFileSize - 8 := by omega
  unfold MmapWriter.rollsOver
  rw [hsize, hlimit, decide_eq_true_iff]
  omega

/-- One call. -/
theorem reserve_stays_iff (hmin : 16 ≤ maxFileSize) (hmax : maxFileSize < 2 ^ 64) (h : c.Returned)
    (hsize : c.before.maxFileSize = maxFileSize) (hpos : 0 < c.len) (hlt : c.len < eofMarker) :
    c.Stays maxFileSize ↔ c.before.currentOffset + 8 ≤ maxFileSize ∧ c.len + 16 ≤ maxFileSize := by
  obtain ⟨hreserve, hplace⟩ := h.reserved hpos hlt
  have hiff := rollsOver_room hsize hmin hmax c.len
  unfold Call.Stays MmapWriter.touches
  rw [hplace]
  dsimp only
  rcases reserve_cases hreserve with ⟨hroll, he⟩ | ⟨hroll, he⟩
  · have hafter : c.after.currentOffset = c.before.currentOffset + (8 + c.len) := by
      rw [(Prod.mk.inj he).1]
    have hroom : ¬ maxFileSize < c.before.currentOffset + (8 + c.len) + 8 := by
      rw [← hiff, hroll]
      decide
    rw [hroll, if_neg Bool.false_ne_true, hafter]
    simp only [List.forall_mem_cons, List.not_mem_nil, false_imp_iff, implies_true, and_true]
    omega
  · have hafter : c.after.currentOffset = 0 + (8 + c.len) := by
      rw [(Prod.mk.inj he).1]
    rw [hroll, if_pos rfl, hafter]
    simp only [List.forall_mem_cons, List.not_mem_nil, false_imp_iff, implies_true, and_true]
    omega

theorem reserve_maxFileSize (h : c.Returned) (hpos : 0 < c.len) (hlt : c.len < eofMarker) :
    c.after.maxFileSize = c.before.maxFileSize := by
  rcases reserve_cases (h.reserved hpos hlt).1 with ⟨-, he⟩ | ⟨-, he⟩
  · rw [(Prod.mk.inj he).1]
  · rw [(Prod.mk.inj he).1]

/-- The calls of a writer stay in the file if it begins where there is room for a header, and each
record leaves room for one. -/
theorem calls_stay_iff (hmin : 16 ≤ maxFileSize) (hmax : maxFileSize < 2 ^ 64) {calls : List Call} :
    ∀ {w : MmapWriter}, w.maxFileSize = maxFileSize → w.Calls calls →
      (∀ c ∈ calls, 0 < c.len ∧ c.len < eofMarker) →
      ((∀ c ∈ calls, c.Stays maxFileSize) ↔
        (calls ≠ [] → w.currentOffset + 8 ≤ maxFileSize) ∧ ∀ c ∈ calls, c.len + 16 ≤ maxFileSize) := by
  induction calls with
  | nil =>
    intro w _ _ _
    exact ⟨fun _ => ⟨fun hne => absurd rfl hne, fun c hc => absurd hc List.not_mem_nil⟩,
      fun _ c hc => absurd hc List.not_mem_nil⟩
  | cons c cs ih =>
    rintro w hsize ⟨rfl, hreturned, hcs⟩ hlens
    obtain ⟨⟨hpos, hlt⟩, hlens⟩ := List.forall_mem_cons.mp hlens
    have hone := reserve_stays_iff hmin hmax hreturned hsize hpos hlt
    have hrest := ih ((reserve_maxFileSize hreturned hpos hlt).trans hsize) hcs hlens
    have hplace := (hreturned.reserved hpos hlt).2
    rw [List.forall_mem_cons, List.forall_mem_cons, hone, hrest]
    constructor
    · rintro ⟨⟨hroom, hfits⟩, -, hall⟩
      exact ⟨fun _ => hroom, hfits, hall⟩
    · rintro ⟨hroom, hfits, hall⟩
      have hroom := hroom (List.cons_ne_nil _ _)
      -- the call has left room for the next one
      have hstays := hone.mpr ⟨hroom, hfits⟩
      unfold Call.Stays at hstays
      rw [hplace] at hstays
      exact ⟨⟨hroom, hfits⟩, fun _ => by omega, hall⟩

end Calls

section Constructor

theorem sizeFile_maxFileSize {w w' : MmapWriter} {d d' : Dir} {index : Nat}
    (h : w.sizeFile d index = some (w', d')) : w'.maxFileSize = w.maxFileSize ∧ w.maxFileSize < 2 ^ 63 := by
  unfold MmapWriter.sizeFile at h
  split at h
  · cases h
  · obtain ⟨rfl, -⟩ := Prod.mk.inj (Option.some.inj h)
    exact ⟨rfl, by omega⟩

theorem fastForward_maxFileSize : ∀ (fuel : Nat) {w w' : MmapWriter} {d d' : Dir},
    MmapWriter.fastForward fuel w d = some (w', d') → w'.maxFileSize = w.maxFileSize
  | 0, _, _, _, _, h => by cases h
  | fuel + 1, w, w', d, d', h => by
    rw [MmapWriter.fastForward] at h
    split at h
    · dsimp only at h
      split at h
      · cases h
        rfl
      · split at h
        · exact (sizeFile_maxFileSize h).1
        · have hnext := fastForward_maxFileSize fuel h
          exact hnext
    · cases h
      rfl

/-- The constructor keeps the size it is given, one that `ftruncate` takes. -/
theorem create_maxFileSize {maxFileSize : Nat} {w : MmapWriter} {d d' : Dir}
    (h : MmapWriter.create maxFileSize d = some (w, d')) :
    w.maxFileSize = maxFileSize ∧ maxFileSize < 2 ^ 63 := by
  unfold MmapWriter.create MmapWriter.attach at h
  split at h
  · obtain ⟨⟨w₁, d₁⟩, hsize, hloop⟩ := Option.bind_eq_some_iff.mp h
    obtain ⟨hw₁, hmax⟩ := sizeFile_maxFileSize hsize
    exact ⟨(fastForward_maxFileSize _ hloop).trans hw₁, hmax⟩
  · exact sizeFile_maxFileSize h

end Constructor

/-- Whatever the constructor finds in the directory, and whatever the files are at each call: what the
calls of `reserve` touch is in the file, and their writer leaves room for a header, if and only if the
constructor has found room for one and all records leave room for one in an empty file. -/
theorem reserve_inside_iff {maxFileSize : Nat} (hmin : 16 ≤ maxFileSize) {w : MmapWriter} {d d' : Dir}
    (hcreate : MmapWriter.create maxFileSize d = some (w, d')) {calls : List Call} (hcalls : w.Calls calls)
    (hlens : ∀ c ∈ calls, 0 < c.len ∧ c.len < eofMarker) :
    (∀ c ∈ calls, c.Stays maxFileSize) ↔
      (calls ≠ [] → w.currentOffset + 8 ≤ maxFileSize) ∧ ∀ c ∈ calls, c.len + 16 ≤ maxFileSize := by
  obtain ⟨hsize, hmax⟩ := create_maxFileSize hcreate
  exact calls_stay_iff hmin (by omega) hsize hcalls hlens

section Samples

/-- In an empty directory the writer begins file 0. -/
theorem create_empty (maxFileSize : Nat) (hpos : 0 < maxFileSize) (hmax : maxFileSize < 2 ^ 63) :
    MmapWriter.create maxFileSize ∅ =
      some (⟨maxFileSize, 0, 0⟩, (Dir.create ∅ 0).truncate 0 maxFileSize) :=
  if_neg (show ¬ (maxFileSize = 0 ∨ 2 ^ 63 ≤ maxFileSize) by omega)

/-- A record that the file has room for. -/
theorem reserveAny_room {w : MmapWriter} {len : Nat} (d : Dir) (hlen : ¬ (len = 0 ∨ len = eofMarker))
    (hroll : w.rollsOver len = false) : w.reserveAny d len =
      some (some (w.currentOffset + (8 + len) - len), (w.claim d len).1, (w.claim d len).2) := by
  unfold MmapWriter.reserveAny MmapWriter.reserve MmapWriter.makeRoom
  rw [if_neg hlen, hroll]
  rfl

/-- A record that the next file is opened for. -/
theorem reserveAny_rollover {w : MmapWriter} {len : Nat} (d : Dir) (hlen : ¬ (len = 0 ∨ len = eofMarker))
    (hroll : w.rollsOver len = true) (hpos : 0 < w.maxFileSize) (hmax : w.maxFileSize < 2 ^ 63) :
    ∃ c : Call, c.before = w ∧ c.dir = d ∧ c.len = len ∧ c.Returned := by
  obtain ⟨res, hres⟩ : ∃ res, w.reserveAny d len = some res := by
    unfold MmapWriter.reserveAny MmapWriter.reserve MmapWriter.makeRoom MmapWriter.openFile
      MmapWriter.sizeFile
    rw [if_neg hlen, hroll, if_pos rfl, if_neg (by omega)]
    exact ⟨_, rfl⟩
  exact ⟨⟨w, d, len, res.1, res.2.1, res.2.2⟩, rfl, rfl, rfl, hres⟩

/-- A record in a file that has room for it. -/
theorem sample_reserve : ∃ c : Call, c.Returned ∧ c.len = 8 ∧ c.Stays 32 := by
  have hcreate := create_empty 32 (by decide) (by decide)
  generalize hd : (Dir.create ∅ 0).truncate 0 32 = d at hcreate
  let c : Call :=
    ⟨⟨32, 0, 0⟩, d, 8, some 8, (MmapWriter.claim ⟨32, 0, 0⟩ d 8).1, (MmapWriter.claim ⟨32, 0, 0⟩ d 8).2⟩
  have hreturned : c.Returned := @reserveAny_room ⟨32, 0, 0⟩ 8 d (by decide) (by decide)
  have hcalls : MmapWriter.Calls ⟨32, 0, 0⟩ [c] := ⟨rfl, hreturned, trivial⟩
  have hlens : ∀ c' ∈ [c], 0 < c'.len ∧ c'.len < eofMarker := by
    intro c' hc
    rw [List.mem_singleton.mp hc]
    exact ⟨Nat.zero_lt_succ 7, show 8 < eofMarker by decide⟩
  have hstays := (reserve_inside_iff (by decide) hcreate hcalls hlens).mpr
    ⟨fun _ => Nat.le_of_ble_eq_true rfl, fun c' hc => by
      rw [List.mem_singleton.mp hc]
      exact Nat.le_of_ble_eq_true rfl⟩
  exact ⟨c, hreturned, rfl, hstays c List.mem_cons_self⟩

/-- A file of 16 bytes has room for no record of 100: the marker is written and the payload handed out
behind the end of the new file. -/
theorem reserve_behind_the_end : ¬ ∀ (maxFileSize : Nat), 16 ≤ maxFileSize → ∀ (w : MmapWriter) (d d' : Dir),
    MmapWriter.create maxFileSize d = some (w, d') → ∀ c : Call, c.before = w → c.Returned →
      0 < c.len → c.len < eofMarker → c.Stays maxFileSize := by
  intro h
  have hcreate := create_empty 16 (by decide) (by decide)
  generalize hd : (Dir.create ∅ 0).truncate 0 16 = d at hcreate
  obtain ⟨c, hbefore, -, hlen, hreturned⟩ :=
    @reserveAny_rollover ⟨16, 0, 0⟩ 100 d (by decide) rfl (by decide) (by decide)
  have hpos : 0 < c.len := by omega
  have hlt : c.len < eofMarker := by
    rw [hlen]
    decide
  have hstays := h 16 le_rfl _ _ _ hcreate c hbefore hreturned hpos hlt
  have hsize : c.before.maxFileSize = 16 := by rw [hbefore]
  have hroom := ((reserve_stays_iff le_rfl (by decide) hreturned hsize hpos hlt).mp hstays).2
  omega

end Samples

end Exchange.MmapLog
