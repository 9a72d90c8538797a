import Exchange.Ipc.LastFile

/-!
# A writer that goes down between `reserve` and `commit`

A crash leaves a header that is not published and whatever the payload holds by then. The next writer
finds the end of the records where it was and writes over the header, but not over all of the rest: what
is behind a shorter record are bytes of the abandoned payload, and a reader takes them for a header.

`Veils` compares the directory with one that no crash has left anything in: file by file they agree up to
where something has been written since, and behind the last record both say that nothing is published.
Every step of the writer is one on the clean directory as well (`Scarred.step`), so the journal stays a
queue as long as the word behind each record that is committed is zero (`no_phantom`). Where it is not,
a reader gets a record that nobody has committed (`phantom_record`).
-/

namespace Exchange.MmapLog

open Lib

namespace Sys

/-- What can happen next; the writer may also go down before `commit`, whatever is in the payload. -/
inductive CrashStep (maxFileSize : Nat) (sys : Sys) : Sys → Prop
  | step {sys' : Sys} (hstep : Step maxFileSize sys sys') : CrashStep maxFileSize sys sys'
  | crash {w : MmapWriter} {p left : Payload} (hphase : sys.phase = .claimed w p ∨ sys.phase = .copied w p)
      (hlen : left.length = p.length) : CrashStep maxFileSize sys { sys with
        dir := sys.dir.edit w.currentFileIndex fun m => m.blit (w.currentOffset - p.length) left
        phase := .down }

/-- The states an empty directory can be brought to by steps that meet `K`. -/
inductive CrashRun (maxFileSize : Nat) (K : Sys → Sys → Prop) : Sys → Prop
  | init : CrashRun maxFileSize K .init
  | step {sys sys' : Sys} (h : CrashRun maxFileSize K sys) (hstep : CrashStep maxFileSize sys sys')
      (hK : K sys sys') : CrashRun maxFileSize K sys'

/-- At a `commit` the published length of the next record is zero. -/
def Clear (sys sys' : Sys) : Prop :=
  ∀ w p, sys.phase = .copied w p → sys'.phase = .ready w →
    (sys.dir.bytes w.currentFileIndex).load32 (w.currentOffset + 4) = 0

end Sys

/-- How far the last file has been written since the last crash. -/
def Phase.written (cur : List Payload) : Phase → Nat
  | .claimed _ _ => extent cur + 8
  | .copied _ p => extent cur + (8 + p.length)
  | _ => extent cur

/-- Two files of one size that agree up to `lim`. -/
def Agrees (lim : Nat) (f g : File) : Prop := f.size = g.size ∧ SameOn f.bytes g.bytes 0 lim

/-- `d` holds what `c` does, and behind it perhaps what crashes have left. -/
structure Veils (d c : Dir) (full : List (List Payload)) (cur : List Payload) (lim : Nat) : Prop where
  complete : ∀ i recs, full[i]? = some recs → Option.Rel (Agrees (extent recs)) (d.lookup i) (c.lookup i)
  marked : ∀ i recs f, full[i]? = some recs → d.lookup i = some f →
    f.bytes.load32 (extent recs + 4) = eofMarker
  last : Option.Rel (Agrees lim) (d.lookup full.length) (c.lookup full.length)
  reach : extent cur ≤ lim
  beyond : ∀ i, full.length < i → d.lookup i = none
  word : ∀ f, d.lookup full.length = some f → f.bytes.load32 (extent cur + 4) = 0

section Files

variable {d c : Dir} {full : List (List Payload)} {cur : List Payload} {lim : Nat} {maxFileSize : Nat}

theorem Agrees.mono {f g : File} (h : Agrees lim f g) {lim' : Nat} (hle : lim' ≤ lim) : Agrees lim' f g :=
  ⟨h.1, h.2.mono le_rfl hle⟩

theorem rel_mono {o o' : Option File} (h : Option.Rel (Agrees lim) o o') {lim' : Nat} (hle : lim' ≤ lim) :
    Option.Rel (Agrees lim') o o' := by
  cases h with
  | none => exact .none
  | some hagrees => exact .some (hagrees.mono hle)

theorem rel_none {o o' : Option File} (h : Option.Rel (Agrees lim) o o') (ho : o = none) : o' = none := by
  subst ho
  cases h
  rfl

theorem rel_some {f : File} {o o' : Option File} (h : Option.Rel (Agrees lim) o o') (ho : o = some f) :
    ∃ g, o' = some g ∧ Agrees lim f g := by
  cases h with
  | none => cases ho
  | some hagrees =>
    obtain rfl := Option.some.inj ho
    exact ⟨_, rfl, hagrees⟩

theorem rel_some' {g : File} {o o' : Option File} (h : Option.Rel (Agrees lim) o o') (ho : o' = some g) :
    ∃ f, o = some f ∧ Agrees lim f g := by
  cases h with
  | none => cases ho
  | some hagrees =>
    obtain rfl := Option.some.inj ho
    exact ⟨_, rfl, hagrees⟩

/-- A file with records agrees up to their end. -/
theorem Veils.file (h : Veils d c full cur lim) {i : Nat} {recs : List Payload}
    (hrecs : (full ++ [cur])[i]? = some recs) : Option.Rel (Agrees (extent recs)) (d.lookup i) (c.lookup i) := by
  by_cases hlt : i < full.length
  · rw [List.getElem?_append_left hlt] at hrecs
    exact h.complete i recs hrecs
  · have hle := (List.getElem?_eq_some_iff.mp hrecs).1
    rw [List.length_append, List.length_singleton] at hle
    obtain rfl : i = full.length := by omega
    obtain rfl := Option.some.inj ((last_getElem? full cur).symm.trans hrecs)
    exact rel_mono h.last h.reach

/-- A chain ends where its records do. -/
theorem Chain.end_eq {m : Bytes} {recs : List Payload} {off : Nat} (h : Chain m 0 recs off) :
    off = extent recs := by
  rw [h.extent_eq, Nat.zero_add]

/-- The readers see the records of the clean directory. -/
theorem Veils.published (h : Veils d c full cur lim) (hpub : Published maxFileSize c full cur) :
    Published maxFileSize d full cur := by
  refine ⟨fun i recs hrecs => ?_, ?_⟩
  · obtain ⟨g, hg, hsize, off, hchain, hroom, -⟩ := hpub.complete i recs hrecs
    obtain ⟨f, hf, hfsize, hsame⟩ := rel_some' (h.complete i recs hrecs) hg
    obtain rfl := hchain.end_eq
    exact ⟨f, hf, hfsize.trans hsize, _, hchain.congr hsame.symm, hroom, h.marked i recs f hrecs hf⟩
  · have hlast := hpub.last
    have hrel := h.last
    generalize hd : d.lookup full.length = o at hrel
    generalize hc : c.lookup full.length = o' at hrel hlast
    cases hlast with
    | missing =>
      cases hrel
      exact .missing
    | empty hzero =>
      cases hrel with
      | some hagrees => exact .empty (hagrees.1.trans hzero)
    | live hsize hpos hchain hfit _ =>
      cases hrel with
      | some hagrees =>
        obtain rfl := hchain.end_eq
        exact .live (hagrees.1.trans hsize) hpos (hchain.congr (hagrees.2.symm.mono le_rfl h.reach)) hfit
          fun _ => h.word _ hd

/-- A reader that loses nothing in the clean directory loses nothing. -/
theorem Veils.grows {d' c' : Dir} {full' : List (List Payload)} {cur' : List Payload} {lim' : Nat}
    (h : Veils d c full cur lim) (h' : Veils d' c' full' cur' lim')
    (hgrows : Grows maxFileSize c c' full full' cur cur') : Grows maxFileSize d d' full full' cur cur' := by
  refine ⟨hgrows.files, hgrows.records, fun i f recs off hrecs hf hsize hchain => ?_⟩
  obtain rfl := hchain.end_eq
  obtain ⟨g, hg, hgsize, hsame⟩ := rel_some (h.file hrecs) hf
  obtain ⟨g', hg', hgsize', hkept⟩ := hgrows.bytes i g recs _ hrecs hg (hgsize ▸ hsize) (hchain.congr hsame)
  obtain ⟨more, hmore⟩ := hgrows.records i recs hrecs
  obtain ⟨f', hf', hfsize, hsame'⟩ := rel_some' (h'.file hmore) hg'
  have hle : extent recs ≤ extent (recs ++ more) := by
    unfold extent
    rw [List.map_append, List.sum_append]
    exact Nat.le_add_right _ _
  exact ⟨f', hf', hfsize.trans hgsize', (hsame.trans hkept).trans (hsame'.symm.mono le_rfl hle)⟩

end Files

/-! ## Steps of the files -/

section Writes

variable {d c : Dir} {full : List (List Payload)} {cur cur' : List Payload} {lim lim' : Nat}

/-- A length of zero is four zero bytes. -/
theorem load32_eq_zero {m : Bytes} {off : Nat} (h : m.load32 off = 0) : SameOn m .zero off (off + 4) := by
  have hbyte : ∀ b : UInt8, b.toNat = 0 → b = 0 := fun b hb => UInt8.toNat_inj.mp hb
  unfold Bytes.load32 at h
  intro i hlo hhi
  obtain rfl | rfl | rfl | rfl : i = off ∨ i = off + 1 ∨ i = off + 2 ∨ i = off + 3 := by omega
  all_goals exact hbyte _ (by omega)

/-- What changes the last file only need only be looked at there. -/
theorem Veils.touch (h : Veils d c full cur lim) {d' c' : Dir}
    (hothers : ∀ k, k ≠ full.length → d'.lookup k = d.lookup k ∧ c'.lookup k = c.lookup k)
    (hlast : Option.Rel (Agrees lim') (d'.lookup full.length) (c'.lookup full.length))
    (hreach : extent cur' ≤ lim')
    (hword : ∀ f, d'.lookup full.length = some f → f.bytes.load32 (extent cur' + 4) = 0) :
    Veils d' c' full cur' lim' := by
  refine ⟨fun i recs hrecs => ?_, fun i recs f hrecs hf => ?_, hlast, hreach, fun i hi => ?_, hword⟩
  · have hlt := (List.getElem?_eq_some_iff.mp hrecs).1
    rw [(hothers i (by omega)).1, (hothers i (by omega)).2]
    exact h.complete i recs hrecs
  · have hlt := (List.getElem?_eq_some_iff.mp hrecs).1
    rw [(hothers i (by omega)).1] at hf
    exact h.marked i recs f hrecs hf
  · rw [(hothers i (by omega)).1]
    exact h.beyond i hi

/-- Making a file hides nothing new. -/
theorem Veils.create (h : Veils d c full cur lim) :
    Veils (d.create full.length) (c.create full.length) full cur lim := by
  have hlast := h.last
  cases hd : d.lookup full.length with
  | some f =>
    obtain ⟨g, hg, -⟩ := rel_some hlast hd
    rw [Dir.create_eq hd, Dir.create_eq hg]
    exact h
  | none =>
    have hc := rel_none hlast hd
    refine h.touch (fun k hk => ⟨Dir.lookup_create_ne hk, Dir.lookup_create_ne hk⟩) ?_ h.reach (fun f hf => ?_)
    · rw [Dir.lookup_create hd, Dir.lookup_create hc]
      exact .some ⟨rfl, .refl _ _ _⟩
    · rw [Dir.lookup_create hd] at hf
      obtain rfl := Option.some.inj hf
      exact Bytes.load32_zero (.refl _ _ _)

/-- `ftruncate` of the last file. -/
theorem Veils.truncate (h : Veils d c full cur lim) (size : Nat) :
    Veils (d.truncate full.length size) (c.truncate full.length size) full cur lim := by
  have hnone : ∀ {d : Dir}, d.lookup full.length = none → d.truncate full.length size = d := by
    intro d hd
    unfold Dir.truncate
    rw [hd]
  refine h.touch (fun k hk => ⟨Dir.lookup_truncate_ne hk, Dir.lookup_truncate_ne hk⟩) ?_ h.reach
    (fun f hf => ?_)
  · have hlast := h.last
    cases hd : d.lookup full.length with
    | none =>
      have hc := rel_none hlast hd
      rw [hnone hd, hnone hc, hd, hc]
      exact .none
    | some f =>
      obtain ⟨g, hg, hsize, hsame⟩ := rel_some hlast hd
      rw [Dir.lookup_truncate hd, Dir.lookup_truncate hg]
      refine .some ⟨rfl, fun i hlo hhi => ?_⟩
      dsimp only
      rw [hsize, hsame i hlo hhi]
  · cases hd : d.lookup full.length with
    | none =>
      rw [hnone hd, hd] at hf
      cases hf
    | some f₀ =>
      rw [Dir.lookup_truncate hd] at hf
      obtain rfl := Option.some.inj hf
      have hzero := load32_eq_zero (h.word f₀ hd)
      refine Bytes.load32_zero fun i hlo hhi => ?_
      dsimp only
      split
      · exact hzero i hlo hhi
      · rfl

/-- A file that is there after a write was there before. -/
theorem lookup_edit_some {i : Nat} {g : Bytes → Bytes} {f : File} (hf : (d.edit i g).lookup i = some f) :
    ∃ f₀, d.lookup i = some f₀ ∧ f.bytes = g f₀.bytes := by
  cases hd : d.lookup i with
  | none =>
    unfold Dir.edit at hf
    rw [hd] at hf
    dsimp only at hf
    rw [hd] at hf
    cases hf
  | some f₀ =>
    rw [Dir.lookup_edit hd] at hf
    obtain rfl := Option.some.inj hf
    exact ⟨f₀, rfl, rfl⟩

/-- The same edit in both directories. -/
theorem rel_edit {i : Nat} {g₁ g₂ : Bytes → Bytes} (h : Option.Rel (Agrees lim) (d.lookup i) (c.lookup i))
    (hsame : ∀ f g, d.lookup i = some f → c.lookup i = some g → SameOn f.bytes g.bytes 0 lim →
      SameOn (g₁ f.bytes) (g₂ g.bytes) 0 lim') :
    Option.Rel (Agrees lim') ((d.edit i g₁).lookup i) ((c.edit i g₂).lookup i) := by
  cases hd : d.lookup i with
  | none =>
    have hc := rel_none h hd
    unfold Dir.edit
    rw [hd, hc]
    dsimp only
    rw [hd, hc]
    exact .none
  | some f =>
    obtain ⟨g, hg, hsize, hagree⟩ := rel_some h hd
    rw [Dir.lookup_edit hd, Dir.lookup_edit hg]
    exact .some ⟨hsize, hsame f g hd hg hagree⟩

/-- The last file is written, in the clean directory perhaps otherwise. -/
theorem Veils.edit (h : Veils d c full cur lim) {g₁ g₂ : Bytes → Bytes}
    (hsame : ∀ f g, d.lookup full.length = some f → c.lookup full.length = some g →
      SameOn f.bytes g.bytes 0 lim → SameOn (g₁ f.bytes) (g₂ g.bytes) 0 lim')
    (hreach : extent cur' ≤ lim')
    (hword : ∀ f, d.lookup full.length = some f → (g₁ f.bytes).load32 (extent cur' + 4) = 0) :
    Veils (d.edit full.length g₁) (c.edit full.length g₂) full cur' lim' := by
  refine h.touch (fun k hk => ⟨Dir.lookup_edit_ne hk, Dir.lookup_edit_ne hk⟩) (rel_edit h.last hsame) hreach
    (fun f hf => ?_)
  obtain ⟨f₀, hf₀, hbytes⟩ := lookup_edit_some hf
  rw [hbytes]
  exact hword f₀ hf₀

/-- The same store on both sides. -/
theorem SameOn.store {m m' : Bytes} (h : SameOn m m' 0 lim) (off v : Nat) :
    SameOn (m.store32 off v) (m'.store32 off v) 0 lim := by
  intro i hlo hhi
  unfold Bytes.store32
  split
  · rfl
  · exact h i hlo hhi

/-- The marker ends the last file. -/
theorem Veils.mark (h : Veils d c full cur lim) (hnext : c.lookup (full.length + 1) = none) :
    Veils (d.edit full.length fun m => m.store32 (extent cur + 4) eofMarker)
      (c.edit full.length fun m => m.store32 (extent cur + 4) eofMarker) (full ++ [cur]) [] 0 := by
  have hsnoc : ∀ {i : Nat} {recs : List Payload}, (full ++ [cur])[i]? = some recs → i ≠ full.length →
      full[i]? = some recs := by
    intro i recs hrecs hi
    have hlt := (List.getElem?_eq_some_iff.mp hrecs).1
    rw [List.length_append, List.length_singleton] at hlt
    rwa [List.getElem?_append_left (by omega)] at hrecs
  have hlen : (full ++ [cur]).length = full.length + 1 := by
    rw [List.length_append, List.length_singleton]
  refine ⟨fun i recs hrecs => ?_, fun i recs f hrecs hf => ?_, ?_, le_rfl, fun i hi => ?_, fun f hf => ?_⟩
  · by_cases hi : i = full.length
    · subst hi
      obtain rfl := Option.some.inj ((last_getElem? full cur).symm.trans hrecs)
      exact rel_edit (rel_mono h.last h.reach) fun f g _ _ hagree => SameOn.store hagree _ _
    · rw [Dir.lookup_edit_ne hi, Dir.lookup_edit_ne hi]
      exact h.complete i recs (hsnoc hrecs hi)
  · by_cases hi : i = full.length
    · subst hi
      obtain rfl := Option.some.inj ((last_getElem? full cur).symm.trans hrecs)
      obtain ⟨f₀, -, hbytes⟩ := lookup_edit_some hf
      rw [hbytes, Bytes.load32_store32 _ _ (by decide)]
    · rw [Dir.lookup_edit_ne hi] at hf
      exact h.marked i recs f (hsnoc hrecs hi) hf
  · rw [hlen, Dir.lookup_edit_ne (Nat.succ_ne_self _), Dir.lookup_edit_ne (Nat.succ_ne_self _), hnext,
      h.beyond _ (Nat.lt_succ_self _)]
    exact .none
  · rw [hlen] at hi
    rw [Dir.lookup_edit_ne (by omega)]
    exact h.beyond i (by omega)
  · rw [hlen, Dir.lookup_edit_ne (Nat.succ_ne_self _), h.beyond _ (Nat.lt_succ_self _)] at hf
    cases hf

/-- A file is in one directory if it is in the other. -/
theorem Veils.mem_keys (h : Veils d c full cur lim) (hbeyond : ∀ i, full.length < i → c.lookup i = none)
    (i : Nat) : i ∈ d.keys ↔ i ∈ c.keys := by
  rw [← AList.mem_keys, ← AList.mem_keys, ← AList.lookup_isSome, ← AList.lookup_isSome]
  by_cases hi : i ≤ full.length
  · have hlt : i < (full ++ [cur]).length := by
      rw [List.length_append, List.length_singleton]
      omega
    have hrel := h.file (List.getElem?_eq_getElem hlt)
    generalize d.lookup i = o at hrel
    generalize c.lookup i = o' at hrel
    cases hrel with
    | none => exact Iff.rfl
    | some _ => exact Iff.rfl
  · rw [h.beyond i (by omega), hbeyond i (by omega)]

/-- The last file depends on which there are. -/
theorem max?_congr {l l' : List Nat} (h : ∀ i, i ∈ l ↔ i ∈ l') : l.max? = l'.max? := by
  cases hl : l'.max? with
  | none =>
    rw [List.max?_eq_none_iff] at hl ⊢
    refine List.eq_nil_iff_forall_not_mem.mpr fun i hi => ?_
    rw [h i, hl] at hi
    cases hi
  | some k =>
    rw [List.max?_eq_some_iff] at hl ⊢
    exact ⟨(h k).mpr hl.1, fun i hi => hl.2 i ((h i).mp hi)⟩

end Writes

/-! ## Steps of the writer -/

/-- The journal is that of the clean directory `c`. -/
structure Scarred (maxFileSize : Nat) (sys : Sys) (c : Dir) (full : List (List Payload)) (cur : List Payload) :
    Prop where
  written : Written maxFileSize { sys with dir := c } full cur
  veils : Veils sys.dir c full cur (sys.phase.written cur)

section Steps

variable {maxFileSize : Nat} {sys sys' : Sys} {c c' : Dir} {full : List (List Payload)} {cur ps : List Payload}

theorem Kept.stays (h : Kept maxFileSize sys sys' full cur) (hw : Written maxFileSize sys full cur)
    (hrolled : sys'.rolled = sys.rolled) (happended : sys'.appended = sys.appended ++ ps) :
    Written maxFileSize sys' full (cur ++ ps) ∧
      Grows maxFileSize sys.dir sys'.dir full full cur (cur ++ ps) := by
  obtain ⟨full', cur', hw', hgrows⟩ := h
  obtain rfl : full = full' := hgrows.files.eq_of_length (by rw [← hw.rolled, ← hw'.rolled, hrolled])
  have hall := happended.symm.trans hw'.appended
  rw [hw.appended, List.append_assoc] at hall
  obtain rfl := List.append_cancel_left hall
  exact ⟨hw', hgrows⟩

theorem Kept.rolls (h : Kept maxFileSize sys sys' full cur) (hw : Written maxFileSize sys full cur)
    (hrolled : sys'.rolled = sys.rolled + 1) (happended : sys'.appended = sys.appended) :
    Written maxFileSize sys' (full ++ [cur]) [] ∧
      Grows maxFileSize sys.dir sys'.dir full (full ++ [cur]) cur [] := by
  obtain ⟨full', cur', hw', hgrows⟩ := h
  obtain ⟨last, rfl⟩ := hgrows.files
  have hone : last.length = 1 := by
    have hlen := hw'.rolled
    rw [hrolled, hw.rolled, List.length_append] at hlen
    omega
  obtain ⟨recs, rfl⟩ := List.length_eq_one_iff.mp hone
  -- nothing is appended meanwhile
  obtain ⟨more, hmore⟩ := hgrows.records _ _ (last_getElem? full cur)
  rw [List.append_assoc, List.getElem?_append_right le_rfl, Nat.sub_self] at hmore
  obtain rfl : recs = cur ++ more := Option.some.inj hmore
  have hall := happended.symm.trans hw'.appended
  rw [hw.appended, List.flatten_append, List.flatten_singleton, List.append_assoc, List.append_assoc] at hall
  have hnil := List.append_cancel_left hall
  obtain ⟨rfl, rfl⟩ := List.append_eq_nil_iff.mp (List.self_eq_append_right.mp hnil)
  rw [List.append_nil] at hw' hgrows
  exact ⟨hw', hgrows⟩

/-- Nothing that the writer has to do with changes. -/
theorem Written.kept (hw : Written maxFileSize sys full cur) (hdir : sys'.dir = sys.dir)
    (hphase : sys'.phase = sys.phase) (hrolled : sys'.rolled = sys.rolled)
    (happended : sys'.appended = sys.appended) : Kept maxFileSize sys sys' full cur := by
  refine ⟨full, cur, ⟨?_, ?_, ?_, hrolled.trans hw.rolled, happended.trans hw.appended⟩, ?_⟩
  · rw [hdir]
    exact hw.published
  · rw [hdir]
    exact hw.beyond
  · rw [hdir, hphase]
    exact hw.phase
  · rw [hdir]
    exact .refl ..

/-- A step that keeps the journal in order, on the clean directory too. -/
def Scars (maxFileSize : Nat) (sys sys' : Sys) (full : List (List Payload)) (cur : List Payload) : Prop :=
  ∃ c' full' cur', Scarred maxFileSize sys' c' full' cur' ∧
    Grows maxFileSize sys.dir sys'.dir full full' cur cur'

/-- The writer stays in the last file. -/
theorem Scarred.stays (h : Scarred maxFileSize sys c full cur)
    (hkept : Kept maxFileSize { sys with dir := c } { sys' with dir := c' } full cur)
    (hrolled : sys'.rolled = sys.rolled) (happended : sys'.appended = sys.appended ++ ps)
    (hveils : Veils sys'.dir c' full (cur ++ ps) (sys'.phase.written (cur ++ ps))) :
    Scars maxFileSize sys sys' full cur := by
  obtain ⟨hw, hgrows⟩ := hkept.stays h.written hrolled happended
  exact ⟨c', full, cur ++ ps, ⟨hw, hveils⟩, h.veils.grows hveils hgrows⟩

/-- It appends nothing. -/
theorem Scarred.keeps (h : Scarred maxFileSize sys c full cur)
    (hkept : Kept maxFileSize { sys with dir := c } { sys' with dir := c' } full cur)
    (hrolled : sys'.rolled = sys.rolled) (happended : sys'.appended = sys.appended)
    (hveils : Veils sys'.dir c' full cur (sys'.phase.written cur)) : Scars maxFileSize sys sys' full cur := by
  have hnothing : sys'.appended = sys.appended ++ [] := by rw [happended, List.append_nil]
  refine h.stays hkept hrolled hnothing ?_
  rw [List.append_nil]
  exact hveils

theorem Scarred.start (h : Scarred maxFileSize sys c full cur) (hphase : sys.phase = .down) :
    Scars maxFileSize sys { sys with
      dir := sys.dir.create (sys.dir.keys.max?.getD 0)
      phase := .starting sys.dir.keys.max? } full cur := by
  have hw := h.written
  have hkeys : sys.dir.keys.max? = c.keys.max? := max?_congr (h.veils.mem_keys hw.beyond)
  have hveils := h.veils
  rw [hphase] at hveils
  have hlast : c.keys.max?.getD 0 = full.length := by
    have hok := hw.phase
    rw [show Sys.phase { sys with dir := c } = .down from hphase] at hok
    rcases hok with ⟨hn, hnone, -⟩ | ⟨f, off, hf, -⟩
    · cases hmax : c.keys.max? with
      | none => exact hn.symm
      | some k =>
        -- no file is there
        have hmem := (List.max?_eq_some_iff.mp hmax).1
        rw [← AList.mem_keys, ← AList.lookup_isSome] at hmem
        by_cases hk : k = full.length
        · exact hk
        · rw [hw.beyond k (by omega)] at hmem
          cases hmem
    · have hmax : c.keys.max? = some full.length := lookup_keys_max hw.beyond hf
      rw [hmax]
      rfl
  rw [hkeys]
  have hkept : Kept maxFileSize { sys with dir := c } { sys with
      dir := c.create (c.keys.max?.getD 0)
      phase := .starting c.keys.max? } full cur := hw.start hphase
  refine h.keeps hkept rfl rfl ?_
  dsimp only
  rw [hlast]
  exact hveils.create

/-- The constructor on the last file. -/
theorem attach_found {d : Dir} {n off : Nat} {f : File} (hf : d.lookup n = some f) (hpos : 0 < maxFileSize)
    (hmax : maxFileSize < 2 ^ 63) (hsize : f.size = maxFileSize) (hchain : Chain f.bytes 0 cur off)
    (hfit : off + 8 ≤ maxFileSize ∨ cur = []) (hword : f.bytes.load32 (off + 4) = 0) :
    MmapWriter.attach maxFileSize (some n) d = some (⟨maxFileSize, n, off⟩, d.truncate n maxFileSize) := by
  have hle := hchain.le
  have hoff : off ≤ maxFileSize ∧ cur.length < maxFileSize + 1 := by
    rcases hfit with hfit | rfl
    · omega
    · obtain rfl : off = 0 := hchain
      exact ⟨Nat.zero_le _, Nat.succ_pos _⟩
  have hself := @Dir.lookup_truncate d n maxFileSize f hf
  have hsame : SameOn f.bytes (fun j => if j < f.size then f.bytes j else 0) 0 off :=
    fun i _ hi => (if_pos (by omega)).symm
  have hzero : Bytes.load32 (fun j => if j < f.size then f.bytes j else 0) (off + 4) = 0 := by
    refine Bytes.load32_zero fun i hlo hhi => ?_
    split
    · exact load32_eq_zero hword i hlo hhi
    · rfl
  have hloop := fastForward_chain hself hzero hfit (maxFileSize + 1) (hchain.congr hsame) id hoff.2
  unfold MmapWriter.attach MmapWriter.sizeFile
  dsimp only
  rw [if_neg (by omega)]
  exact hloop

theorem Scarred.started (h : Scarred maxFileSize sys c full cur) {found : Option Nat} {w : MmapWriter}
    {d : Dir} (hphase : sys.phase = .starting found)
    (hrun : MmapWriter.attach maxFileSize found sys.dir = some (w, d)) :
    Scars maxFileSize sys { sys with
      dir := d
      phase := .ready w } full cur := by
  have hw := h.written
  have hveils := h.veils
  rw [hphase] at hveils
  have hok := hw.phase
  rw [show Sys.phase { sys with dir := c } = .starting found from hphase] at hok
  rcases hok with ⟨hn, rfl, rfl, g, hg, hz⟩ | ⟨rfl, g, off, hg, htail⟩
  · obtain ⟨hpos, hmax, rfl, rfl⟩ := sizeFile_some hrun
    have hclean : MmapWriter.attach maxFileSize none c =
        some (⟨maxFileSize, 0, 0⟩, c.truncate 0 maxFileSize) := by
      unfold MmapWriter.attach MmapWriter.sizeFile
      dsimp only at hpos hmax ⊢
      rw [if_neg (by omega)]
    refine h.keeps (hw.started hphase hclean) rfl rfl ?_
    have hsized := hveils.truncate maxFileSize
    rw [hn] at hsized
    exact hsized
  · obtain ⟨⟨w₁, d₁⟩, hsize, -⟩ := Option.bind_eq_some_iff.mp hrun
    obtain ⟨hpos, hmax, -, -⟩ := sizeFile_some hsize
    obtain ⟨f, hf, hfsize, hsame⟩ := rel_some' hveils.last hg
    obtain rfl := htail.chain.end_eq
    have hclean := attach_found hg hpos hmax htail.size htail.chain htail.fit
      (load32_of_zero htail.zero (Nat.le_add_right _ _))
    have hreal := attach_found hf hpos hmax (hfsize.trans htail.size)
      (htail.chain.congr (hsame.symm.mono le_rfl hveils.reach)) htail.fit (hveils.word f hf)
    obtain ⟨rfl, rfl⟩ := Prod.mk.inj (Option.some.inj (hreal.symm.trans hrun))
    exact h.keeps (hw.started hphase hclean) rfl rfl (hveils.truncate maxFileSize)

theorem Scarred.mark (h : Scarred maxFileSize sys c full cur) {w : MmapWriter} {p : Payload}
    (hphase : sys.phase = .ready w) (hp : Fits maxFileSize p) :
    Scars maxFileSize sys { sys with
      dir := w.markEof sys.dir
      phase := .marked w p
      rolled := sys.rolled + 1 } full cur := by
  have hw := h.written
  have hveils := h.veils
  rw [hphase] at hveils
  obtain ⟨hw', hgrows⟩ := (hw.mark hphase hp).rolls hw rfl rfl
  have hok := hw.phase
  rw [show Sys.phase { sys with dir := c } = .ready w from hphase] at hok
  obtain ⟨-, g, off, -, rfl, htail⟩ := hok
  obtain rfl := htail.chain.end_eq
  have hmarked := hveils.mark (hw.beyond _ (Nat.lt_succ_self _))
  exact ⟨_, _, _, ⟨hw', hmarked⟩, hveils.grows hmarked hgrows⟩

/-- The next file. -/
theorem Scarred.nextIndex_eq (h : Scarred maxFileSize sys c full cur) {w : MmapWriter} {p : Payload}
    (hphase : sys.phase = .marked w p ∨ sys.phase = .created w p) (hsmall : sys.rolled < 2 ^ 32) :
    nextIndex w.currentFileIndex = full.length := by
  have hrolled : sys.rolled = full.length := h.written.rolled
  have hok := h.written.phase
  unfold nextIndex
  rcases hphase with hphase | hphase
  · rw [show Sys.phase { sys with dir := c } = .marked w p from hphase] at hok
    have hn := hok.2.2.2.1
    omega
  · rw [show Sys.phase { sys with dir := c } = .created w p from hphase] at hok
    have hn := hok.2.2.2.1
    omega

theorem Scarred.create (h : Scarred maxFileSize sys c full cur) {w : MmapWriter} {p : Payload}
    (hphase : sys.phase = .marked w p) (hsmall : sys.rolled < 2 ^ 32) :
    Scars maxFileSize sys { sys with
      dir := sys.dir.create (nextIndex w.currentFileIndex)
      phase := .created w p } full cur := by
  have hveils := h.veils
  rw [hphase] at hveils
  refine h.keeps (h.written.create hphase hsmall) rfl rfl ?_
  dsimp only
  rw [h.nextIndex_eq (Or.inl hphase) hsmall]
  exact hveils.create

theorem Scarred.size (h : Scarred maxFileSize sys c full cur) {w w' : MmapWriter} {p : Payload} {d : Dir}
    (hphase : sys.phase = .created w p) (hsmall : sys.rolled < 2 ^ 32)
    (hrun : w.sizeFile sys.dir (nextIndex w.currentFileIndex) = some (w', d)) :
    Scars maxFileSize sys { sys with
      dir := d
      phase := .opened w' p } full cur := by
  have hveils := h.veils
  rw [hphase] at hveils
  obtain ⟨hpos, hmax, rfl, rfl⟩ := sizeFile_some hrun
  have hclean : w.sizeFile c (nextIndex w.currentFileIndex) =
      some (⟨w.maxFileSize, nextIndex w.currentFileIndex, 0⟩,
        c.truncate (nextIndex w.currentFileIndex) w.maxFileSize) := by
    unfold MmapWriter.sizeFile
    rw [if_neg (by omega)]
  refine h.keeps (h.written.size hphase hsmall hclean) rfl rfl ?_
  dsimp only
  rw [h.nextIndex_eq (Or.inr hphase) hsmall]
  exact hveils.truncate _

theorem Scarred.claim (h : Scarred maxFileSize sys c full cur) {w : MmapWriter} {p : Payload}
    (hphase : sys.phase = .opened w p) :
    Scars maxFileSize sys { sys with
      dir := (w.claim sys.dir p.length).2
      phase := .claimed (w.claim sys.dir p.length).1 p } full cur := by
  have hw := h.written
  have hveils := h.veils
  rw [hphase] at hveils
  have hkept := hw.claim hphase
  have hok := hw.phase
  rw [show Sys.phase { sys with dir := c } = .opened w p from hphase] at hok
  obtain ⟨-, -, g, off, -, rfl, htail, -⟩ := hok
  obtain rfl := htail.chain.end_eq
  refine h.keeps hkept rfl rfl ?_
  show Veils (sys.dir.edit full.length fun m => (m.store32 (extent cur) p.length).store32 (extent cur + 4) 0)
    (c.edit full.length fun m => (m.store32 (extent cur) p.length).store32 (extent cur + 4) 0) full cur
    (extent cur + 8)
  refine hveils.edit (fun f g _ _ hagree => ?_) (Nat.le_add_right _ _) fun f _ => ?_
  · -- the header is all that is new
    intro i hlo hhi
    have hlim : i < extent cur + 8 := hhi
    unfold Bytes.store32
    split
    · rfl
    · split
      · rfl
      · exact hagree i hlo (show i < extent cur by omega)
  · exact Bytes.load32_store32 _ _ (by decide)

theorem Scarred.copy (h : Scarred maxFileSize sys c full cur) {w : MmapWriter} {p : Payload}
    (hphase : sys.phase = .claimed w p) :
    Scars maxFileSize sys { sys with
      dir := sys.dir.edit w.currentFileIndex fun m => m.blit (w.currentOffset - p.length) p
      phase := .copied w p } full cur := by
  have hw := h.written
  have hveils := h.veils
  rw [hphase] at hveils
  have hkept := hw.copy hphase
  have hok := hw.phase
  rw [show Sys.phase { sys with dir := c } = .claimed w p from hphase] at hok
  obtain ⟨-, -, g, off, -, rfl, hclaimed⟩ := hok
  obtain rfl := hclaimed.chain.end_eq
  have hplace : extent cur + (8 + p.length) - p.length = extent cur + 8 := by omega
  refine h.keeps hkept rfl rfl ?_
  dsimp only
  rw [hplace]
  show Veils (sys.dir.edit full.length fun m => m.blit (extent cur + 8) p)
    (c.edit full.length fun m => m.blit (extent cur + 8) p) full cur (extent cur + (8 + p.length))
  refine hveils.edit (fun f g _ _ hagree => ?_) (Nat.le_add_right _ _) fun f hf => ?_
  · intro i hlo hhi
    have hlim : i < extent cur + (8 + p.length) := hhi
    unfold Bytes.blit
    split
    · rfl
    · exact hagree i hlo (show i < extent cur + 8 by omega)
  · have hsame : SameOn (f.bytes.blit (extent cur + 8) p) f.bytes 0 (extent cur + 8) :=
      SameOn.blit _ _ (Or.inl le_rfl)
    rw [hsame.load32_eq (Nat.zero_le _) (by omega)]
    exact hveils.word f hf

theorem Scarred.commit (h : Scarred maxFileSize sys c full cur) {w : MmapWriter} {p : Payload}
    (hphase : sys.phase = .copied w p)
    (hclear : (sys.dir.bytes w.currentFileIndex).load32 (w.currentOffset + 4) = 0) :
    Scars maxFileSize sys { sys with
      dir := sys.dir.commit w.currentFileIndex (w.currentOffset - p.length)
      phase := .ready w
      appended := sys.appended ++ [p] } full cur := by
  have hw := h.written
  have hveils := h.veils
  rw [hphase] at hveils
  have hkept := hw.commit hphase
  have hok := hw.phase
  rw [show Sys.phase { sys with dir := c } = .copied w p from hphase] at hok
  obtain ⟨-, -, g, off, -, rfl, hclaimed, -⟩ := hok
  obtain rfl := hclaimed.chain.end_eq
  have hreserved : extent cur + (8 + p.length) - p.length - 8 = extent cur := by omega
  have hpublished : extent cur + (8 + p.length) - p.length - 4 = extent cur + 4 := by omega
  have hend := extent_snoc cur p
  refine h.stays hkept rfl rfl ?_
  unfold Dir.commit
  dsimp only at hclear ⊢
  rw [hpublished, hreserved]
  show Veils (sys.dir.edit full.length fun m => m.store32 (extent cur + 4) (m.load32 (extent cur)))
    (c.edit full.length fun m => m.store32 (extent cur + 4) (m.load32 (extent cur))) full (cur ++ [p])
    (extent (cur ++ [p]))
  refine hveils.edit (fun f g _ _ hagree => ?_) le_rfl fun f hf => ?_
  · have hlim : SameOn f.bytes g.bytes 0 (extent cur + (8 + p.length)) := hagree
    rw [hend, hlim.load32_eq (Nat.zero_le _) (by omega)]
    exact SameOn.store hlim _ _
  · rw [Dir.bytes_eq hf] at hclear
    have hrest : SameOn (f.bytes.store32 (extent cur + 4) (f.bytes.load32 (extent cur))) f.bytes
        (extent cur + 8) (extent (cur ++ [p]) + 8) := SameOn.store32 _ _ (by omega)
    rw [hrest.load32_eq (by omega) (by omega), hend]
    exact hclear

/-- What is left of a memory below `lim`. -/
def wipe (lim : Nat) (m : Bytes) : Bytes := fun i => if i < lim then m i else 0

/-- The writer goes down: in the clean directory what it has not published goes with it. -/
theorem Scarred.crash (h : Scarred maxFileSize sys c full cur) {w : MmapWriter} {p left : Payload}
    (hphase : sys.phase = .claimed w p ∨ sys.phase = .copied w p) (hlen : left.length = p.length) :
    Scars maxFileSize sys { sys with
      dir := sys.dir.edit w.currentFileIndex fun m => m.blit (w.currentOffset - p.length) left
      phase := .down } full cur := by
  have hw := h.written
  obtain ⟨g, off, hg, rfl, hclaimed, hlim⟩ : ∃ g off, c.lookup full.length = some g ∧
      w = ⟨maxFileSize, full.length, off + (8 + p.length)⟩ ∧ Claimed maxFileSize g cur off p.length ∧
      extent cur ≤ sys.phase.written cur := by
    have hok := hw.phase
    rcases hphase with hphase | hphase
    · rw [show Sys.phase { sys with dir := c } = .claimed w p from hphase] at hok
      obtain ⟨-, -, g, off, hg, hw', hclaimed⟩ := hok
      exact ⟨g, off, hg, hw', hclaimed, h.veils.reach⟩
    · rw [show Sys.phase { sys with dir := c } = .copied w p from hphase] at hok
      obtain ⟨-, -, g, off, hg, hw', hclaimed, -⟩ := hok
      exact ⟨g, off, hg, hw', hclaimed, h.veils.reach⟩
  obtain rfl := hclaimed.chain.end_eq
  have hroom := hclaimed.room
  have hsame : SameOn g.bytes (wipe (extent cur) g.bytes) 0 (extent cur) :=
    fun i _ hi => (if_pos hi).symm
  have hzero : ∀ i, extent cur ≤ i → wipe (extent cur) g.bytes i = 0 := fun i hi => if_neg (by omega)
  have htail : Tail maxFileSize { g with bytes := wipe (extent cur) g.bytes } cur (extent cur) :=
    ⟨hclaimed.size, by omega, hclaimed.chain.congr hsame, hzero, Or.inl (by omega)⟩
  have hkept : Kept maxFileSize { sys with dir := c } { sys with
      dir := c.edit full.length (wipe (extent cur))
      phase := .down } full cur :=
    hw.edited hg hclaimed.size hclaimed.chain (by omega) hsame
      (load32_of_zero hzero (Nat.le_add_right _ _)) (Or.inr ⟨_, _, rfl, htail⟩)
  have hplace : extent cur + (8 + p.length) - p.length = extent cur + 8 := by omega
  refine h.keeps hkept rfl rfl ?_
  dsimp only
  rw [hplace]
  show Veils (sys.dir.edit full.length fun m => m.blit (extent cur + 8) left)
    (c.edit full.length (wipe (extent cur))) full cur (extent cur)
  refine h.veils.edit (fun f g _ _ hagree => ?_) le_rfl fun f hf => ?_
  · intro i hlo hhi
    unfold Bytes.blit wipe
    rw [if_neg (by omega), if_pos hhi]
    exact hagree i hlo (by omega)
  · have hsame : SameOn (f.bytes.blit (extent cur + 8) left) f.bytes 0 (extent cur + 8) :=
      SameOn.blit _ _ (Or.inl le_rfl)
    rw [hsame.load32_eq (Nat.zero_le _) (by omega)]
    exact h.veils.word f hf

/-- Every step that meets the condition keeps the journal in order. -/
theorem Scarred.step (h : Scarred maxFileSize sys c full cur) (hstep : Sys.CrashStep maxFileSize sys sys')
    (hclear : sys.Clear sys') (hsmall : sys'.rolled < 2 ^ 32) : Scars maxFileSize sys sys' full cur := by
  have hw := h.written
  have hveils := h.veils
  cases hstep with
  | crash hphase hlen => exact h.crash hphase hlen
  | step hstep =>
    cases hstep with
    | start hphase => exact h.start hphase
    | started hphase hrun => exact h.started hphase hrun
    | stop hphase =>
      rw [hphase] at hveils
      exact h.keeps (hw.step (.stop hphase) hsmall) rfl rfl hveils
    | @refuse w w' p d hphase hrun =>
      obtain ⟨rfl, rfl⟩ := append_refused hrun
      rw [hphase] at hveils
      exact h.keeps (hw.kept rfl hphase.symm rfl rfl) rfl rfl hveils
    | mark hphase hp _ => exact h.mark hphase hp
    | create hphase => exact h.create hphase hsmall
    | size hphase hrun => exact h.size hphase hsmall hrun
    | room hphase hp hroll =>
      rw [hphase] at hveils
      exact h.keeps (hw.room hphase hp hroll) rfl rfl hveils
    | claim hphase => exact h.claim hphase
    | copy hphase => exact h.copy hphase
    | commit hphase => exact h.commit hphase (hclear _ _ hphase rfl)
    | attach _ => exact h.keeps (hw.kept rfl rfl rfl rfl) rfl rfl hveils
    | read _ _ => exact h.keeps (hw.kept rfl rfl rfl rfl) rfl rfl hveils

end Steps

/-! ## Runs -/

section Runs

variable {maxFileSize : Nat} {sys sys' : Sys}

/-- Files are only rolled forward. -/
theorem Sys.CrashStep.rolled_le (h : sys.CrashStep maxFileSize sys') : sys.rolled ≤ sys'.rolled := by
  cases h with
  | step hstep => exact hstep.rolled_le
  | crash _ _ => exact le_rfl

/-- The journal, and the reader somewhere in it. -/
def Intact (maxFileSize : Nat) (sys : Sys) : Prop :=
  ∃ c full cur, Scarred maxFileSize sys c full cur ∧ (sys.reader = none → sys.returned = []) ∧
    ∀ r, sys.reader = some r → At maxFileSize sys.dir full cur r sys.returned

theorem Intact.step (h : Intact maxFileSize sys) (hstep : sys.CrashStep maxFileSize sys')
    (hclear : sys.Clear sys') (hsmall : sys'.rolled < 2 ^ 32) : Intact maxFileSize sys' := by
  obtain ⟨c, full, cur, hscarred, hunread, hreader⟩ := h
  obtain ⟨c', full', cur', hscarred', hgrows⟩ := hscarred.step hstep hclear hsmall
  have hpub := hscarred.veils.published hscarred.written.published
  refine ⟨c', full', cur', hscarred', ?_⟩
  -- a reader that does not read stays where it is
  have hstays : sys'.reader = sys.reader → sys'.returned = sys.returned →
      (sys'.reader = none → sys'.returned = []) ∧
        ∀ r, sys'.reader = some r → At maxFileSize sys'.dir full' cur' r sys'.returned := by
    intro hr hreturned
    rw [hr, hreturned]
    exact ⟨hunread, fun r hr => (hreader r hr).grows hpub hgrows⟩
  cases hstep with
  | crash _ _ => exact hstays rfl rfl
  | step hstep =>
    have hpub' := hscarred'.veils.published hscarred'.written.published
    cases hstep
    case attach hnone =>
      refine ⟨fun hsome => (by cases hsome), fun r hr => ?_⟩
      obtain rfl := Option.some.inj hr
      show At maxFileSize sys.dir full' cur' (.create sys.dir) sys.returned
      rw [hunread hnone]
      exact At.open hpub' _ (Nat.zero_le _)
    case read r r' fuel res hsome hrun =>
      have hlen : full'.length < 2 ^ 32 := hscarred'.written.rolled ▸ hsmall
      have hnext := ((hreader r hsome).grows hpub hgrows).read hpub' hlen hrun
      refine ⟨fun hnone => (by cases hnone), fun r₀ hr₀ => ?_⟩
      obtain rfl := Option.some.inj hr₀
      cases res with
      | some p => exact hnext
      | none =>
        show At maxFileSize sys.dir full' cur' r' (sys.returned ++ [])
        rw [List.append_nil]
        exact hnext.1
    all_goals exact hstays rfl rfl

theorem Sys.CrashRun.intact (h : Sys.CrashRun maxFileSize Clear sys) (hsmall : sys.rolled < 2 ^ 32) :
    Intact maxFileSize sys := by
  induction h with
  | init =>
    have hinv := inv_init maxFileSize
    refine ⟨∅, [], [], ⟨hinv.written, ⟨fun i recs hrecs => ?_, fun i recs f hrecs _ => ?_, ?_, le_rfl,
      fun _ _ => rfl, fun f hf => ?_⟩⟩, hinv.unread, hinv.reader⟩
    · cases hrecs
    · cases hrecs
    · exact .none
    · cases hf
  | step _ hstep hclear ih =>
    exact (ih (Nat.lt_of_le_of_lt hstep.rolled_le hsmall)).step hstep hclear hsmall

/-- However often a writer goes down, and whatever it leaves: as long as the word behind each record that
is committed is zero, a reader gets what has been committed, in order, and nothing else. -/
theorem no_phantom (h : Sys.CrashRun maxFileSize Sys.Clear sys) (hsmall : sys.rolled < 2 ^ 32) :
    sys.returned <+: sys.appended := by
  obtain ⟨c, full, cur, hscarred, hunread, hreader⟩ := h.intact hsmall
  have happended : sys.appended = full.flatten ++ cur := hscarred.written.appended
  rw [happended]
  cases hr : sys.reader with
  | none =>
    rw [hunread hr]
    exact List.nil_prefix
  | some r => exact (hreader r hr).within

end Runs

section Samples

/-- A payload whose bytes are taken for a header once a record of 4 bytes is in front of them. -/
def abandoned : Payload := [0, 0, 0, 0, 0, 0, 0, 0, 1, 0, 0, 0, 0, 0, 0, 0]

/-- The first writer has gone down in its payload. -/
def leftDir : Dir :=
  (((Dir.create ∅ 0).truncate 0 64).edit 0 fun m => (m.store32 0 16).store32 4 0).edit 0
    fun m => m.blit 8 abandoned

/-- The second one has written its record and not published it. -/
def copiedDir (p : Payload) : Dir :=
  ((leftDir.truncate 0 64).edit 0 fun m => (m.store32 0 p.length).store32 4 0).edit 0
    fun m => m.blit (0 + (8 + p.length) - p.length) p

theorem fits_abandoned : Fits 64 abandoned := ⟨by decide, by decide, by decide⟩

theorem crash_run {K : Sys → Sys → Prop} (hK : ∀ s s', (∀ w p, s.phase ≠ .copied w p) → K s s') {p : Payload}
    (hp : Fits 64 p) (hroll : (⟨64, 0, 0⟩ : MmapWriter).rollsOver p.length = false) :
    Sys.CrashRun 64 K ⟨copiedDir p, .copied ⟨64, 0, 0 + (8 + p.length)⟩ p, none, 0, [], []⟩ := by
  have hwrites : ∀ {s s' : Sys}, Sys.CrashRun 64 K s → (∀ w p, s.phase ≠ .copied w p) →
      Sys.Step 64 s s' → Sys.CrashRun 64 K s' := fun h hphase hstep => h.step (.step hstep) (hK _ _ hphase)
  have hfirst : (⟨64, 0, 0⟩ : MmapWriter).rollsOver abandoned.length = false := by decide
  have hstart := hwrites .init (fun _ _ he => by cases he) (.start rfl)
  have hready := hwrites hstart (fun _ _ he => by cases he) (.started rfl rfl)
  have hopened := hwrites hready (fun _ _ he => by cases he) (.room rfl fits_abandoned hfirst)
  have hclaimed := hwrites hopened (fun _ _ he => by cases he) (.claim rfl)
  have hcrashed := hclaimed.step (.crash (Or.inl rfl) (rfl : abandoned.length = _))
    (hK _ _ fun _ _ he => by cases he)
  have hdown : Sys.CrashRun 64 K ⟨leftDir, .down, none, 0, [], []⟩ := hcrashed
  -- the second writer
  have hstarted := hwrites hdown (fun _ _ he => by cases he) (.start rfl)
  have hfound : Sys.CrashRun 64 K ⟨leftDir, .starting (some 0), none, 0, [], []⟩ := hstarted
  have hagain := hwrites hfound (fun _ _ he => by cases he) (.started rfl rfl)
  have hroom := hwrites hagain (fun _ _ he => by cases he) (.room rfl hp hroll)
  have hheader := hwrites hroom (fun _ _ he => by cases he) (.claim rfl)
  have hcopied := hwrites hheader (fun _ _ he => by cases he) (.copy rfl)
  exact hcopied

/-- The next record is as long as the abandoned one. -/
theorem sample_crash : ∃ sys, Sys.CrashRun 64 Sys.Clear sys ∧ sys.appended = [List.replicate 16 7] ∧
    sys.returned <+: sys.appended := by
  have hp : Fits 64 (List.replicate 16 7) := ⟨by decide, by decide, by decide⟩
  have hcopied := crash_run (K := Sys.Clear) (fun s s' hne w p hphase => absurd hphase (hne w p)) hp (by decide)
  have hready := hcopied.step (.step (.commit rfl)) fun w p hphase _ => by
    cases hphase
    rfl
  have hattached := hready.step (.step (.attach rfl)) fun w p hphase => by cases hphase
  have hread := hattached.step (.step (@Sys.Step.read 64 _ _ _ 1 _ rfl rfl)) fun w p hphase => by cases hphase
  exact ⟨_, hread, rfl, no_phantom hread (show 0 < 2 ^ 32 by decide)⟩

/-- It is shorter: behind it a reader gets a record that nobody has committed. -/
theorem phantom_record : ¬ ∀ (maxFileSize : Nat) (sys : Sys),
    Sys.CrashRun maxFileSize (fun _ _ => True) sys → sys.rolled < 2 ^ 32 →
      ∀ p ∈ sys.returned, p ∈ sys.appended := by
  intro h
  have hp : Fits 64 [7, 7, 7, 7] := ⟨by decide, by decide, by decide⟩
  have hcopied := crash_run (K := fun _ _ => True) (fun _ _ _ => trivial) hp (by decide)
  have hready := hcopied.step (.step (.commit rfl)) trivial
  have hattached := hready.step (.step (.attach rfl)) trivial
  have hfirst := hattached.step (.step (@Sys.Step.read 64 _ _ _ 1 _ rfl rfl)) trivial
  have hsecond := hfirst.step (.step (@Sys.Step.read 64 _ _ _ 1 _ rfl rfl)) trivial
  have hmem := h 64 _ hsecond (show 0 < 2 ^ 32 by decide) [0] (List.mem_cons_of_mem _ List.mem_cons_self)
  revert hmem
  decide

end Samples

end Exchange.MmapLog
