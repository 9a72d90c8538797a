import Exchange.Ipc.Writing

/-!
# The journal is a queue

One writer after another on the same directory, and a reader. The writer's `append`
and its constructor are taken apart at every point where a reader can see a
difference: the marker is there and the next file is not, the next file is there and
is still empty, a header or a payload is there and not published. Between any two of
these the reader may call `read_next`, any number of times.

`Inv` ties all of it to two lists, the records of the files that are full and those of
the last file. File indices wrap after `2^32` files, so it holds as long as the writers
have rolled over fewer times than that; behind that `journal-0` is written anew
(`journal_wraps`).
-/

namespace Exchange.MmapLog

open Lib

/-- Where the writer is. -/
inductive Phase
  /-- There is no writer. -/
  | down
  /-- The constructor has created, or found, its file. -/
  | starting (found : Option Nat)
  /-- Between appends. -/
  | ready (w : MmapWriter)
  /-- The marker is set. -/
  | marked (w : MmapWriter) (p : Payload)
  /-- The next file is created. -/
  | created (w : MmapWriter) (p : Payload)
  /-- There is room for the record. -/
  | opened (w : MmapWriter) (p : Payload)
  /-- The header is written. -/
  | claimed (w : MmapWriter) (p : Payload)
  /-- The payload is written. -/
  | copied (w : MmapWriter) (p : Payload)

/-- The directory, the writer and the reader, with what was appended and what
`read_next` has returned; `rolled` counts the markers. -/
structure Sys where
  dir : Dir
  phase : Phase
  reader : Option MmapReader
  rolled : Nat
  appended : List Payload
  returned : List Payload

namespace Sys

/-- An empty directory. -/
def init : Sys := ⟨∅, .down, none, 0, [], []⟩

/-- What can happen next. -/
inductive Step (maxFileSize : Nat) (sys : Sys) : Sys → Prop
  | start (hphase : sys.phase = .down) :
      Step maxFileSize sys { sys with
        dir := sys.dir.create (sys.dir.keys.max?.getD 0)
        phase := .starting sys.dir.keys.max? }
  | started {found : Option Nat} {w : MmapWriter} {d : Dir} (hphase : sys.phase = .starting found)
      (hrun : MmapWriter.attach maxFileSize found sys.dir = some (w, d)) :
      Step maxFileSize sys { sys with
        dir := d
        phase := .ready w }
  | stop {w : MmapWriter} (hphase : sys.phase = .ready w) :
      Step maxFileSize sys { sys with phase := .down }
  | refuse {w w' : MmapWriter} {p : Payload} {d : Dir} (hphase : sys.phase = .ready w)
      (hrun : w.append sys.dir p = some (none, w', d)) :
      Step maxFileSize sys { sys with
        dir := d
        phase := .ready w' }
  | mark {w : MmapWriter} {p : Payload} (hphase : sys.phase = .ready w) (hp : Fits maxFileSize p)
      (hroll : w.rollsOver p.length = true) :
      Step maxFileSize sys { sys with
        dir := w.markEof sys.dir
        phase := .marked w p
        rolled := sys.rolled + 1 }
  | create {w : MmapWriter} {p : Payload} (hphase : sys.phase = .marked w p) :
      Step maxFileSize sys { sys with
        dir := sys.dir.create (nextIndex w.currentFileIndex)
        phase := .created w p }
  | size {w w' : MmapWriter} {p : Payload} {d : Dir} (hphase : sys.phase = .created w p)
      (hrun : w.sizeFile sys.dir (nextIndex w.currentFileIndex) = some (w', d)) :
      Step maxFileSize sys { sys with
        dir := d
        phase := .opened w' p }
  | room {w : MmapWriter} {p : Payload} (hphase : sys.phase = .ready w) (hp : Fits maxFileSize p)
      (hroll : w.rollsOver p.length = false) :
      Step maxFileSize sys { sys with phase := .opened w p }
  | claim {w : MmapWriter} {p : Payload} (hphase : sys.phase = .opened w p) :
      Step maxFileSize sys { sys with
        dir := (w.claim sys.dir p.length).2
        phase := .claimed (w.claim sys.dir p.length).1 p }
  | copy {w : MmapWriter} {p : Payload} (hphase : sys.phase = .claimed w p) :
      Step maxFileSize sys { sys with
        dir := sys.dir.edit w.currentFileIndex fun m => m.blit (w.currentOffset - p.length) p
        phase := .copied w p }
  | commit {w : MmapWriter} {p : Payload} (hphase : sys.phase = .copied w p) :
      Step maxFileSize sys { sys with
        dir := sys.dir.commit w.currentFileIndex (w.currentOffset - p.length)
        phase := .ready w
        appended := sys.appended ++ [p] }
  | attach (hreader : sys.reader = none) :
      Step maxFileSize sys { sys with reader := some (.create sys.dir) }
  | read {r r' : MmapReader} {fuel : Nat} {res : Option Payload} (hreader : sys.reader = some r)
      (hrun : r.readNext sys.dir fuel = some (res, r')) :
      Step maxFileSize sys { sys with
        reader := some r'
        returned := sys.returned ++ res.toList }

/-- The states an empty directory can be brought to. -/
inductive Run (maxFileSize : Nat) : Sys → Prop
  | init : Run maxFileSize .init
  | step {sys sys' : Sys} (h : Run maxFileSize sys) (hstep : Step maxFileSize sys sys') :
      Run maxFileSize sys'

end Sys

/-- What the phase says about the last file, number `n`. -/
def Phase.Ok (maxFileSize n : Nat) (file : Option File) (cur : List Payload) : Phase → Prop
  | .down => (n = 0 ∧ file = none ∧ cur = []) ∨ ∃ f off, file = some f ∧ Tail maxFileSize f cur off
  | .starting found => (n = 0 ∧ found = none ∧ cur = [] ∧ ∃ f, file = some f ∧ f.size = 0) ∨
      (found = some n ∧ ∃ f off, file = some f ∧ Tail maxFileSize f cur off)
  | .ready w => maxFileSize < 2 ^ 63 ∧
      ∃ f off, file = some f ∧ w = ⟨maxFileSize, n, off⟩ ∧ Tail maxFileSize f cur off
  | .marked w p => maxFileSize < 2 ^ 63 ∧ Fits maxFileSize p ∧ w.maxFileSize = maxFileSize ∧
      w.currentFileIndex + 1 = n ∧ file = none ∧ cur = []
  | .created w p => maxFileSize < 2 ^ 63 ∧ Fits maxFileSize p ∧ w.maxFileSize = maxFileSize ∧
      w.currentFileIndex + 1 = n ∧ cur = [] ∧ ∃ f, file = some f ∧ f.size = 0
  | .opened w p => maxFileSize < 2 ^ 63 ∧ Fits maxFileSize p ∧ ∃ f off, file = some f ∧
      w = ⟨maxFileSize, n, off⟩ ∧ Tail maxFileSize f cur off ∧
        off + (8 + p.length) + 8 ≤ maxFileSize
  | .claimed w p => maxFileSize < 2 ^ 63 ∧ Fits maxFileSize p ∧ ∃ f off, file = some f ∧
      w = ⟨maxFileSize, n, off + (8 + p.length)⟩ ∧ Claimed maxFileSize f cur off p.length
  | .copied w p => maxFileSize < 2 ^ 63 ∧ Fits maxFileSize p ∧ ∃ f off, file = some f ∧
      w = ⟨maxFileSize, n, off + (8 + p.length)⟩ ∧ Claimed maxFileSize f cur off p.length ∧
        f.bytes.slice (off + 8) p.length = p

/-- What holds of the directory and the writer. -/
structure Written (maxFileSize : Nat) (sys : Sys) (full : List (List Payload)) (cur : List Payload) :
    Prop where
  published : Published maxFileSize sys.dir full cur
  beyond : ∀ i, full.length < i → sys.dir.lookup i = none
  phase : sys.phase.Ok maxFileSize full.length (sys.dir.lookup full.length) cur
  rolled : sys.rolled = full.length
  appended : sys.appended = full.flatten ++ cur

theorem Grows.refl (maxFileSize : Nat) (d : Dir) (full : List (List Payload)) (cur : List Payload) :
    Grows maxFileSize d d full full cur cur :=
  ⟨List.prefix_rfl, fun _ _ h => ⟨[], by rw [h, List.append_nil]⟩,
    fun _ f _ _ _ hf hsize _ => ⟨f, hf, hsize, .refl _ _ _⟩⟩

section Steps

variable {maxFileSize : Nat} {sys : Sys} {full : List (List Payload)} {cur : List Payload}

/-- A step to `sys'` keeps the journal in order, and readers where they are. -/
def Kept (maxFileSize : Nat) (sys sys' : Sys) (full : List (List Payload)) (cur : List Payload) : Prop :=
  ∃ full' cur', Written maxFileSize sys' full' cur' ∧
    Grows maxFileSize sys.dir sys'.dir full full' cur cur'

/-- The writer changes the last file. -/
theorem Written.last (h : Written maxFileSize sys full cur) {sys' : Sys} {cur' : List Payload}
    (hgrow : Published maxFileSize sys'.dir full cur' ∧
      Grows maxFileSize sys.dir sys'.dir full full cur cur')
    (hothers : ∀ k, k ≠ full.length → sys'.dir.lookup k = sys.dir.lookup k)
    (hphase : sys'.phase.Ok maxFileSize full.length (sys'.dir.lookup full.length) cur')
    (hrolled : sys'.rolled = sys.rolled) (happended : sys'.appended = full.flatten ++ cur') :
    Kept maxFileSize sys sys' full cur := by
  refine ⟨full, cur', ⟨hgrow.1, fun i hi => ?_, hphase, hrolled.trans h.rolled, happended⟩, hgrow.2⟩
  rw [hothers i (by omega)]
  exact h.beyond i hi

/-- The last file is the one being written. -/
theorem lookup_keys_max (hbeyond : ∀ i, full.length < i → sys.dir.lookup i = none) {f : File}
    (hf : sys.dir.lookup full.length = some f) : sys.dir.keys.max? = some full.length := by
  refine List.max?_eq_some_iff.mpr ⟨?_, fun i hi => ?_⟩
  · rw [← AList.mem_keys, ← AList.lookup_isSome, hf]
    rfl
  · by_contra hlt
    rw [← AList.mem_keys, ← AList.lookup_isSome, hbeyond i (by omega)] at hi
    cases hi

theorem Written.start (h : Written maxFileSize sys full cur) (hphase : sys.phase = .down) :
    Kept maxFileSize sys { sys with
      dir := sys.dir.create (sys.dir.keys.max?.getD 0)
      phase := .starting sys.dir.keys.max? } full cur := by
  have hok := h.phase
  rw [hphase] at hok
  rcases hok with ⟨hn, hnone, rfl⟩ | ⟨f, off, hf, htail⟩
  · -- the directory is empty
    have hkeys : sys.dir.keys = [] := by
      refine List.eq_nil_iff_forall_not_mem.mpr (fun i hi => ?_)
      rw [← AList.mem_keys, ← AList.lookup_isSome] at hi
      by_cases hz : i = full.length
      · rw [hz, hnone] at hi
        cases hi
      · rw [h.beyond i (by omega)] at hi
        cases hi
    rw [hkeys]
    show Kept maxFileSize sys { sys with
      dir := sys.dir.create 0
      phase := .starting none } full []
    rw [hn] at hnone
    have hothers : ∀ k, k ≠ full.length → (sys.dir.create 0).lookup k = sys.dir.lookup k :=
      fun k hk => Dir.lookup_create_ne (by omega)
    have hself : (sys.dir.create 0).lookup full.length = some ⟨0, .zero⟩ := by
      rw [hn]
      exact Dir.lookup_create hnone
    refine h.last (h.published.grow hothers ?_ (fun f off hf => ?_)) hothers ?_ rfl h.appended
    · rw [hself]
      exact .empty rfl
    · rw [hn, hnone] at hf
      cases hf
    · exact Or.inl ⟨hn, rfl, rfl, _, hself, rfl⟩
  · have hkeys := lookup_keys_max h.beyond hf
    rw [hkeys, Option.getD_some, Dir.create_eq hf]
    refine ⟨full, cur, ⟨h.published, h.beyond, ?_, h.rolled, h.appended⟩, .refl ..⟩
    exact Or.inr ⟨rfl, f, off, hf, htail⟩

/-- What `ftruncate` and the mapping need. -/
theorem sizeFile_some {w w' : MmapWriter} {d d' : Dir} {index : Nat}
    (h : w.sizeFile d index = some (w', d')) : 0 < w.maxFileSize ∧ w.maxFileSize < 2 ^ 63 ∧
      w' = ⟨w.maxFileSize, index, 0⟩ ∧ d' = d.truncate index w.maxFileSize := by
  unfold MmapWriter.sizeFile at h
  split at h
  · cases h
  · obtain ⟨rfl, rfl⟩ := Prod.mk.inj (Option.some.inj h)
    exact ⟨by omega, by omega, rfl, rfl⟩

/-- The last file gets its size, for the first time or once more. -/
theorem Written.sized (h : Written maxFileSize sys full cur) {f : File} {phase : Phase}
    (hf : sys.dir.lookup full.length = some f) (hpos : 0 < maxFileSize)
    (hsize : (f.size = 0 ∧ cur = []) ∨ ∃ off, Tail maxFileSize f cur off)
    (hphase : ∀ f' off, (sys.dir.truncate full.length maxFileSize).lookup full.length = some f' →
      Tail maxFileSize f' cur off → phase.Ok maxFileSize full.length (some f') cur) :
    Kept maxFileSize sys { sys with
      dir := sys.dir.truncate full.length maxFileSize
      phase := phase } full cur := by
  have hothers : ∀ k, k ≠ full.length →
      (sys.dir.truncate full.length maxFileSize).lookup k = sys.dir.lookup k :=
    fun k hk => Dir.lookup_truncate_ne hk
  have hself : (sys.dir.truncate full.length maxFileSize).lookup full.length = some _ :=
    Dir.lookup_truncate hf
  rcases hsize with ⟨hz, rfl⟩ | ⟨off, htail⟩
  · have hfresh := tail_fresh (f := f) hz hpos
    refine h.last (h.published.grow hothers ?_ (fun f' off hf' hs => ?_)) hothers ?_ rfl h.appended
    · rw [hself]
      exact hfresh.shows
    · obtain rfl := Option.some.inj (hf.symm.trans hf')
      omega
    · have hok := hphase _ 0 hself hfresh
      rw [← hself] at hok
      exact hok
  · obtain ⟨hagain, hsame⟩ := htail.resized
    refine h.last (h.published.grow hothers ?_ (fun f' off' hf' _ hchain => ?_)) hothers ?_ rfl h.appended
    · rw [hself]
      exact hagain.shows
    · obtain rfl := Option.some.inj (hf.symm.trans hf')
      obtain rfl := htail.chain.unique hchain
      exact ⟨_, hself, rfl, hsame⟩
    · have hok := hphase _ off hself hagain
      rw [← hself] at hok
      exact hok

theorem Written.started (h : Written maxFileSize sys full cur) {found : Option Nat} {w : MmapWriter}
    {d : Dir} (hphase : sys.phase = .starting found)
    (hrun : MmapWriter.attach maxFileSize found sys.dir = some (w, d)) :
    Kept maxFileSize sys { sys with
      dir := d
      phase := .ready w } full cur := by
  have hok := h.phase
  rw [hphase] at hok
  unfold MmapWriter.attach at hrun
  rcases hok with ⟨hn, rfl, rfl, f, hf, hz⟩ | ⟨rfl, f, off, hf, htail⟩
  · obtain ⟨hpos, hmax, rfl, rfl⟩ := sizeFile_some hrun
    have hkept : Kept maxFileSize sys { sys with
        dir := sys.dir.truncate full.length maxFileSize
        phase := .ready ⟨maxFileSize, 0, 0⟩ } full [] :=
      h.sized hf hpos (Or.inl ⟨hz, rfl⟩) (fun f' off' _ htail => by
        obtain rfl : off' = 0 := htail.chain
        exact ⟨hmax, f', 0, rfl, by rw [hn], htail⟩)
    rw [hn] at hkept
    exact hkept
  · obtain ⟨⟨w₁, d₁⟩, hsize, hrun⟩ := Option.bind_eq_some_iff.mp hrun
    obtain ⟨hpos, hmax, rfl, rfl⟩ := sizeFile_some hsize
    obtain ⟨hagain, -⟩ := htail.resized
    -- the loop ends where the records do
    have hself : (sys.dir.truncate full.length maxFileSize).lookup full.length = some _ :=
      Dir.lookup_truncate hf
    have hle := hagain.chain.le
    have hfuel : cur.length < maxFileSize + 1 := by
      rcases hagain.fit with hfit | hnil
      · omega
      · rw [hnil]
        exact Nat.succ_pos _
    have hloop := fastForward_chain hself (load32_of_zero hagain.zero (by omega)) hagain.fit
      (maxFileSize + 1) hagain.chain id hfuel
    obtain ⟨rfl, rfl⟩ := Prod.mk.inj (Option.some.inj (hloop.symm.trans hrun))
    refine h.sized hf hpos (Or.inr ⟨off, htail⟩) (fun f' off' hf' htail' => ?_)
    obtain rfl := Option.some.inj (hself.symm.trans hf')
    exact ⟨hmax, _, off, rfl, rfl, hagain⟩

theorem Written.mark (h : Written maxFileSize sys full cur) {w : MmapWriter} {p : Payload}
    (hphase : sys.phase = .ready w) (hp : Fits maxFileSize p) :
    Kept maxFileSize sys { sys with
      dir := w.markEof sys.dir
      phase := .marked w p
      rolled := sys.rolled + 1 } full cur := by
  have hok := h.phase
  rw [hphase] at hok
  obtain ⟨hmax, f, off, hf, rfl, htail⟩ := hok
  have hsame : SameOn (f.bytes.store32 (off + 4) eofMarker) f.bytes 0 off := SameOn.store32 _ _ (by omega)
  have hmark : (f.bytes.store32 (off + 4) eofMarker).load32 (off + 4) = eofMarker :=
    Bytes.load32_store32 _ _ (by decide)
  obtain ⟨hpub, hgrow⟩ := h.published.mark (g := fun m => m.store32 (off + 4) eofMarker) hf htail.size
    htail.chain hsame.symm (htail.room hp) hmark (h.beyond _ (Nat.lt_succ_self _))
  have hlen : (full ++ [cur]).length = full.length + 1 := by
    rw [List.length_append, List.length_singleton]
  refine ⟨full ++ [cur], [], ⟨hpub, fun i hi => ?_, ?_, ?_, ?_⟩, hgrow⟩
  · rw [hlen] at hi
    exact (Dir.lookup_edit_ne (i := full.length) (by omega)).trans (h.beyond i (by omega))
  · rw [hlen]
    exact ⟨hmax, hp, rfl, rfl,
      (Dir.lookup_edit_ne (i := full.length) (by omega)).trans (h.beyond _ (by omega)), rfl⟩
  · rw [hlen, h.rolled]
  · rw [h.appended, List.flatten_append, List.flatten_singleton, List.append_nil]

theorem Written.create (h : Written maxFileSize sys full cur) {w : MmapWriter} {p : Payload}
    (hphase : sys.phase = .marked w p) (hsmall : sys.rolled < 2 ^ 32) :
    Kept maxFileSize sys { sys with
      dir := sys.dir.create (nextIndex w.currentFileIndex)
      phase := .created w p } full cur := by
  have hok := h.phase
  rw [hphase] at hok
  obtain ⟨hmax, hp, hw, hn, hnone, rfl⟩ := hok
  have hrolled := h.rolled
  have hindex : nextIndex w.currentFileIndex = full.length := by
    unfold nextIndex
    omega
  rw [hindex]
  have hothers : ∀ k, k ≠ full.length → (sys.dir.create full.length).lookup k = sys.dir.lookup k :=
    fun k hk => Dir.lookup_create_ne hk
  have hself := Dir.lookup_create hnone
  refine h.last (h.published.grow hothers ?_ (fun f off hf => ?_)) hothers ?_ rfl h.appended
  · rw [hself]
    exact .empty rfl
  · rw [hnone] at hf
    cases hf
  · exact ⟨hmax, hp, hw, hn, rfl, _, hself, rfl⟩

theorem Written.size (h : Written maxFileSize sys full cur) {w w' : MmapWriter} {p : Payload} {d : Dir}
    (hphase : sys.phase = .created w p) (hsmall : sys.rolled < 2 ^ 32)
    (hrun : w.sizeFile sys.dir (nextIndex w.currentFileIndex) = some (w', d)) :
    Kept maxFileSize sys { sys with
      dir := d
      phase := .opened w' p } full cur := by
  have hok := h.phase
  rw [hphase] at hok
  obtain ⟨hmax, hp, hw, hn, rfl, f, hf, hz⟩ := hok
  have hrolled := h.rolled
  have hindex : nextIndex w.currentFileIndex = full.length := by
    unfold nextIndex
    omega
  obtain ⟨hpos, -, rfl, rfl⟩ := sizeFile_some hrun
  rw [hindex, hw]
  refine h.sized hf (hw ▸ hpos) (Or.inl ⟨hz, rfl⟩) (fun f' off' _ htail => ?_)
  obtain rfl : off' = 0 := htail.chain
  have hroom := hp.room
  have hlen := hp.pos
  exact ⟨hmax, hp, f', 0, rfl, rfl, htail, by omega⟩

theorem Written.room (h : Written maxFileSize sys full cur) {w : MmapWriter} {p : Payload}
    (hphase : sys.phase = .ready w) (hp : Fits maxFileSize p) (hroll : w.rollsOver p.length = false) :
    Kept maxFileSize sys { sys with phase := .opened w p } full cur := by
  have hok := h.phase
  rw [hphase] at hok
  obtain ⟨hmax, f, off, hf, rfl, htail⟩ := hok
  have hroom : ¬ maxFileSize < off + (8 + p.length) + 8 := by
    have hiff : (⟨maxFileSize, full.length, off⟩ : MmapWriter).rollsOver p.length = true ↔ _ :=
      rollsOver_iff hp hmax
    rw [← hiff, hroll]
    decide
  exact ⟨full, cur, ⟨h.published, h.beyond, ⟨hmax, hp, f, off, hf, rfl, htail, by omega⟩, h.rolled,
    h.appended⟩, .refl ..⟩

/-- The writer writes behind the records of the last file and publishes nothing. -/
theorem Written.edited (h : Written maxFileSize sys full cur) {f : File} {off : Nat} {g : Bytes → Bytes}
    {phase : Phase} (hf : sys.dir.lookup full.length = some f) (hsize : f.size = maxFileSize)
    (hchain : Chain f.bytes 0 cur off) (hroom : off + 8 ≤ maxFileSize)
    (hsame : SameOn f.bytes (g f.bytes) 0 off) (hend : (g f.bytes).load32 (off + 4) = 0)
    (hphase : phase.Ok maxFileSize full.length (some { f with bytes := g f.bytes }) cur) :
    Kept maxFileSize sys { sys with
      dir := sys.dir.edit full.length g
      phase := phase } full cur := by
  have hself := Dir.lookup_edit (g := g) hf
  have hnone : Chain (g f.bytes) off [] off := rfl
  have hgrow := h.published.edit hf hsize (by omega) hchain hsame hnone (Or.inl hroom) (fun _ => hend)
  rw [List.append_nil] at hgrow
  refine h.last hgrow (fun k hk => Dir.lookup_edit_ne hk) ?_ rfl h.appended
  rw [← hself] at hphase
  exact hphase

theorem Written.claim (h : Written maxFileSize sys full cur) {w : MmapWriter} {p : Payload}
    (hphase : sys.phase = .opened w p) :
    Kept maxFileSize sys { sys with
      dir := (w.claim sys.dir p.length).2
      phase := .claimed (w.claim sys.dir p.length).1 p } full cur := by
  have hok := h.phase
  rw [hphase] at hok
  obtain ⟨hmax, hp, f, off, hf, rfl, htail, hroom⟩ := hok
  obtain ⟨hclaimed, hsame⟩ := htail.claim (Nat.lt_trans hp.lt (by decide)) hroom
  exact h.edited (g := fun m => (m.store32 off p.length).store32 (off + 4) 0) hf htail.size htail.chain
    (by omega) hsame hclaimed.unpublished ⟨hmax, hp, _, off, rfl, rfl, hclaimed⟩

theorem Written.copy (h : Written maxFileSize sys full cur) {w : MmapWriter} {p : Payload}
    (hphase : sys.phase = .claimed w p) :
    Kept maxFileSize sys { sys with
      dir := sys.dir.edit w.currentFileIndex fun m => m.blit (w.currentOffset - p.length) p
      phase := .copied w p } full cur := by
  have hok := h.phase
  rw [hphase] at hok
  obtain ⟨hmax, hp, f, off, hf, rfl, hclaimed⟩ := hok
  have hplace : off + (8 + p.length) - p.length = off + 8 := by omega
  obtain ⟨hcopied, hdata, hsame⟩ := hclaimed.copy
  dsimp only
  rw [hplace]
  have hroom := hclaimed.room
  exact h.edited (g := fun m => m.blit (off + 8) p) hf hclaimed.size hclaimed.chain (by omega) hsame
    hcopied.unpublished ⟨hmax, hp, _, off, rfl, rfl, hcopied, hdata⟩

theorem Written.commit (h : Written maxFileSize sys full cur) {w : MmapWriter} {p : Payload}
    (hphase : sys.phase = .copied w p) :
    Kept maxFileSize sys { sys with
      dir := sys.dir.commit w.currentFileIndex (w.currentOffset - p.length)
      phase := .ready w
      appended := sys.appended ++ [p] } full cur := by
  have hok := h.phase
  rw [hphase] at hok
  obtain ⟨hmax, hp, f, off, hf, rfl, hclaimed, hdata⟩ := hok
  have hplace : off + (8 + p.length) - p.length = off + 8 := by omega
  have hpub : off + 8 - 4 = off + 4 := by omega
  have hres : off + 8 - 8 = off := by omega
  obtain ⟨htail, hone, hsame⟩ := hclaimed.commit hp hdata
  unfold Dir.commit
  dsimp only
  rw [hplace, hpub, hres]
  have hroom := hclaimed.room
  have hgrow := h.published.edit (g := fun m => m.store32 (off + 4) (m.load32 off)) hf hclaimed.size
    htail.pos hclaimed.chain hsame hone (Or.inl hroom) (fun _ => load32_of_zero htail.zero (by omega))
  refine h.last hgrow (fun k hk => Dir.lookup_edit_ne hk) ?_ rfl ?_
  · exact ⟨hmax, _, _, Dir.lookup_edit hf, rfl, htail⟩
  · rw [h.appended, List.append_assoc]

end Steps

/-! ## Runs -/

/-- The invariant of the journal, its writers and the reader. -/
structure Inv (maxFileSize : Nat) (sys : Sys) (full : List (List Payload)) (cur : List Payload) :
    Prop where
  written : Written maxFileSize sys full cur
  unread : sys.reader = none → sys.returned = []
  reader : ∀ r, sys.reader = some r → At maxFileSize sys.dir full cur r sys.returned

/-- At the start nothing is written. -/
theorem inv_init (maxFileSize : Nat) : Inv maxFileSize .init [] [] := by
  refine ⟨⟨⟨fun i recs h => ?_, .missing⟩, fun _ _ => rfl, Or.inl ⟨rfl, rfl, rfl⟩, rfl, rfl⟩, fun _ => rfl,
    fun r hr => ?_⟩
  · cases h
  · cases hr

/-- More calls are allowed than needed. -/
theorem readNext_mono {d : Dir} (k : Nat) : ∀ {fuel : Nat} {r : MmapReader}
    {res : Option Payload × MmapReader}, r.readNext d fuel = some res → r.readNext d (fuel + k) = some res
  | 0, _, _, h => by cases h
  | fuel + 1, r, res, h => by
    rw [Nat.add_right_comm, MmapReader.readNext]
    rw [MmapReader.readNext] at h
    dsimp only at h ⊢
    split at h
    · rw [if_pos ‹_›]
      exact h
    rw [if_neg ‹_›]
    split at h
    · rw [if_pos ‹_›]
      exact h
    rw [if_neg ‹_›]
    split at h
    · rw [if_pos ‹_›]
      exact h
    rw [if_neg ‹_›]
    split at h
    · rw [if_pos ‹_›]
      exact readNext_mono k h
    rw [if_neg ‹_›]
    exact h

section Runs

variable {maxFileSize : Nat} {sys sys' : Sys} {full : List (List Payload)} {cur : List Payload}

/-- A payload without a length, or with that of the marker, is not appended. -/
theorem append_refused {w w' : MmapWriter} {d d' : Dir} {p : Payload}
    (h : w.append d p = some (none, w', d')) : w' = w ∧ d' = d := by
  unfold MmapWriter.append at h
  split at h
  · obtain ⟨rfl, rfl⟩ := Prod.mk.inj (Prod.mk.inj (Option.some.inj h)).2
    exact ⟨rfl, rfl⟩
  · obtain ⟨_, -, h⟩ := Option.bind_eq_some_iff.mp h
    cases h

/-- No step brings the journal into disorder. -/
theorem Written.step (h : Written maxFileSize sys full cur) (hstep : Sys.Step maxFileSize sys sys')
    (hsmall : sys'.rolled < 2 ^ 32) : Kept maxFileSize sys sys' full cur := by
  cases hstep with
  | start hphase => exact h.start hphase
  | started hphase hrun => exact h.started hphase hrun
  | @stop w hphase =>
    have hok := h.phase
    rw [hphase] at hok
    obtain ⟨-, f, off, hf, -, htail⟩ := hok
    exact ⟨full, cur, ⟨h.published, h.beyond, Or.inr ⟨f, off, hf, htail⟩, h.rolled, h.appended⟩, .refl ..⟩
  | refuse hphase hrun =>
    obtain ⟨rfl, rfl⟩ := append_refused hrun
    exact ⟨full, cur, ⟨h.published, h.beyond, hphase ▸ h.phase, h.rolled, h.appended⟩, .refl ..⟩
  | mark hphase hp _ => exact h.mark hphase hp
  | create hphase => exact h.create hphase hsmall
  | size hphase hrun => exact h.size hphase hsmall hrun
  | room hphase hp hroll => exact h.room hphase hp hroll
  | claim hphase => exact h.claim hphase
  | copy hphase => exact h.copy hphase
  | commit hphase => exact h.commit hphase
  | attach _ => exact ⟨full, cur, ⟨h.published, h.beyond, h.phase, h.rolled, h.appended⟩, .refl ..⟩
  | read _ _ => exact ⟨full, cur, ⟨h.published, h.beyond, h.phase, h.rolled, h.appended⟩, .refl ..⟩

/-- What `read_next` returns to a reader, however many calls it was allowed. -/
theorem At.read {d : Dir} {r : MmapReader} {got : List Payload} (hpub : Published maxFileSize d full cur)
    (hsmall : full.length < 2 ^ 32) (h : At maxFileSize d full cur r got) {fuel : Nat}
    {res : Option Payload × MmapReader} (hrun : r.readNext d fuel = some res) :
    Next maxFileSize d full cur got res := by
  obtain ⟨res', hres', hnext⟩ := h.readNext hpub hsmall (fuel + (full.length + 2)) (by omega)
  obtain rfl := Option.some.inj ((readNext_mono (full.length + 2) hrun).symm.trans hres')
  exact hnext

/-- A reader sees what the writer does, and nothing else changes for it. -/
theorem Inv.of_kept (h : Inv maxFileSize sys full cur) (hkept : Kept maxFileSize sys sys' full cur)
    (hreader : sys'.reader = sys.reader) (hreturned : sys'.returned = sys.returned) :
    ∃ full' cur', Inv maxFileSize sys' full' cur' := by
  obtain ⟨full', cur', hwritten, hgrows⟩ := hkept
  refine ⟨full', cur', hwritten, fun hnone => ?_, fun r hr => ?_⟩
  · rw [hreturned]
    exact h.unread (hreader.symm.trans hnone)
  · rw [hreturned]
    exact (h.reader r (hreader.symm.trans hr)).grows h.written.published hgrows

theorem Inv.step (h : Inv maxFileSize sys full cur) (hstep : Sys.Step maxFileSize sys sys')
    (hsmall : sys'.rolled < 2 ^ 32) : ∃ full' cur', Inv maxFileSize sys' full' cur' := by
  have hkept := h.written.step hstep hsmall
  cases hstep
  case attach hreader =>
    have hw := h.written
    refine ⟨full, cur, ⟨hw.published, hw.beyond, hw.phase, hw.rolled, hw.appended⟩,
      fun hnone => (by cases hnone), fun r hr => ?_⟩
    obtain rfl := Option.some.inj hr
    show At maxFileSize sys.dir full cur (.create sys.dir) sys.returned
    rw [h.unread hreader]
    exact At.open hw.published _ (Nat.zero_le _)
  case read r r' fuel res hreader hrun =>
    have hw := h.written
    have hnext := (h.reader r hreader).read hw.published (hw.rolled ▸ hsmall) hrun
    refine ⟨full, cur, ⟨hw.published, hw.beyond, hw.phase, hw.rolled, hw.appended⟩,
      fun hnone => (by cases hnone), fun r₀ hr₀ => ?_⟩
    obtain rfl := Option.some.inj hr₀
    cases res with
    | some p => exact hnext
    | none =>
      show At maxFileSize sys.dir full cur r' (sys.returned ++ [])
      rw [List.append_nil]
      exact hnext.1
  -- the steps of the writer
  all_goals exact h.of_kept hkept rfl rfl

/-- Rollovers are not undone. -/
theorem Sys.Step.rolled_le (h : Sys.Step maxFileSize sys sys') : sys.rolled ≤ sys'.rolled := by
  cases h
  case mark => exact Nat.le_succ _
  all_goals exact le_rfl

/-- Nor is a record taken back. -/
theorem Sys.Step.appended_prefix (h : Sys.Step maxFileSize sys sys') : sys.appended <+: sys'.appended := by
  cases h
  case commit => exact List.prefix_append _ _
  all_goals exact List.prefix_rfl

/-- By induction on the run, as long as fewer than 2^32 files were rolled. -/
theorem Sys.Run.inv (h : Sys.Run maxFileSize sys) (hsmall : sys.rolled < 2 ^ 32) :
    ∃ full cur, Inv maxFileSize sys full cur := by
  induction h with
  | init => exact ⟨[], [], inv_init maxFileSize⟩
  | step _ hstep ih =>
    obtain ⟨full, cur, hinv⟩ := ih (Nat.lt_of_le_of_lt hstep.rolled_le hsmall)
    exact hinv.step hstep hsmall

/-- Calls of `read_next` return these payloads, and then `false`. -/
def Drains (d : Dir) (fuel : Nat) : MmapReader → List Payload → Prop
  | r, [] => ∃ r', r.readNext d fuel = some (none, r')
  | r, p :: ps => ∃ r', r.readNext d fuel = some (some p, r') ∧ Drains d fuel r' ps

/-- By induction on what is left: a reader that is let alone reads it all. -/
theorem At.drains {d : Dir} (hpub : Published maxFileSize d full cur) (hsmall : full.length < 2 ^ 32)
    {fuel : Nat} (hfuel : full.length + 1 < fuel) (ps : List Payload) : ∀ {r : MmapReader}
    {got : List Payload}, At maxFileSize d full cur r got → full.flatten ++ cur = got ++ ps →
      Drains d fuel r ps := by
  induction ps with
  | nil =>
    intro r got h hall
    obtain ⟨⟨res, r'⟩, hres, hnext⟩ := h.readNext hpub hsmall fuel (by omega)
    cases res with
    | none => exact ⟨r', hres⟩
    | some p =>
      have hle := hnext.within.length_le
      rw [hall, List.append_nil, List.length_append, List.length_singleton] at hle
      omega
  | cons p ps ih =>
    intro r got h hall
    obtain ⟨⟨res, r'⟩, hres, hnext⟩ := h.readNext hpub hsmall fuel (by omega)
    cases res with
    | none =>
      have hlen := congrArg List.length (hnext.2.trans hall)
      rw [List.length_append, List.length_cons] at hlen
      omega
    | some q =>
      -- the record is the next one
      obtain ⟨more, hmore⟩ := hnext.within
      rw [hall, List.append_assoc] at hmore
      obtain ⟨rfl, rfl⟩ := List.cons.inj (List.append_cancel_left hmore)
      exact ⟨r', hres, ih hnext (by rw [hall, List.append_assoc]; rfl)⟩

/-- What the reader has got is always a part of what was appended, from the start
on; it gets the rest before the first `false`, and there is room for the marker. -/
theorem journal_fifo (h : Sys.Run maxFileSize sys) (hsmall : sys.rolled < 2 ^ 32) :
    sys.returned <+: sys.appended ∧
      (∀ r, sys.reader = some r → ∀ fuel, sys.rolled + 1 < fuel →
        Drains sys.dir fuel r (sys.appended.drop sys.returned.length)) ∧
      ∀ w, sys.phase = .ready w →
        w.currentOffset + 8 ≤ maxFileSize ∨ (w.currentOffset = 0 ∧ sys.appended = []) := by
  obtain ⟨full, cur, hinv⟩ := h.inv hsmall
  have hw := hinv.written
  have hlen : full.length < 2 ^ 32 := hw.rolled ▸ hsmall
  have hpart : sys.returned <+: sys.appended := by
    rw [hw.appended]
    cases hr : sys.reader with
    | none =>
      rw [hinv.unread hr]
      exact List.nil_prefix
    | some r => exact (hinv.reader r hr).within
  refine ⟨hpart, fun r hr fuel hfuel => ?_, fun w hphase => ?_⟩
  · refine (hinv.reader r hr).drains hw.published hlen (hw.rolled ▸ hfuel) _ ?_
    rw [← hw.appended]
    obtain ⟨more, hmore⟩ := hpart
    rw [← hmore, List.drop_left]
  · have hok := hw.phase
    rw [hphase] at hok
    obtain ⟨-, f, off, -, rfl, htail⟩ := hok
    rcases htail.fit with hfit | rfl
    · exact Or.inl hfit
    · have hoff : off = 0 := htail.chain
      cases hfull : full with
      | nil =>
        refine Or.inr ⟨hoff, ?_⟩
        rw [hw.appended, hfull]
        rfl
      | cons recs rest =>
        -- a full file had room for its marker
        obtain ⟨_, -, -, off', -, hroom, -⟩ := hw.published.complete 0 recs (by rw [hfull]; rfl)
        exact Or.inl (show off + 8 ≤ maxFileSize by omega)

/-- The steps of `append` are those of the code's function: what every step keeps, it keeps. -/
theorem append_rule {P : Sys → Prop} (hkeep : ∀ {s s'}, P s → Sys.Step maxFileSize s s' → P s') (h : P sys)
    {w w' : MmapWriter} {p : Payload} {offset : Option Nat} {d : Dir} (hphase : sys.phase = .ready w)
    (hp : Fits maxFileSize p) (hrun : w.append sys.dir p = some (offset, w', d)) :
    P { sys with
      dir := d
      phase := .ready w'
      rolled := if w.rollsOver p.length then sys.rolled + 1 else sys.rolled
      appended := sys.appended ++ [p] } := by
  have hpos := hp.pos
  have hlt := hp.lt
  unfold MmapWriter.append at hrun
  rw [if_neg (by omega)] at hrun
  obtain ⟨⟨w₂, d₂⟩, hreserve, hrun⟩ := Option.bind_eq_some_iff.mp hrun
  obtain ⟨-, hrun⟩ := Prod.mk.inj (Option.some.inj hrun)
  obtain ⟨rfl, rfl⟩ := Prod.mk.inj hrun
  unfold MmapWriter.reserve at hreserve
  obtain ⟨⟨w₁, d₁⟩, hroom, hclaim⟩ := Option.bind_eq_some_iff.mp hreserve
  obtain ⟨rfl, rfl⟩ := Prod.mk.inj (Option.some.inj hclaim)
  -- the header, the payload and the published length
  have htail : ∀ {sys₁ : Sys}, P sys₁ → sys₁.phase = .opened w₁ p → sys₁.dir = d₁ →
      P { sys₁ with
        dir := Dir.commit ((w₁.claim d₁ p.length).2.edit (w₁.claim d₁ p.length).1.currentFileIndex
          fun m => m.blit ((w₁.claim d₁ p.length).1.currentOffset - p.length) p)
          (w₁.claim d₁ p.length).1.currentFileIndex
          ((w₁.claim d₁ p.length).1.currentOffset - p.length)
        phase := .ready (w₁.claim d₁ p.length).1
        appended := sys₁.appended ++ [p] } := by
    intro sys₁ h₁ hopened hdir
    subst hdir
    exact hkeep (hkeep (hkeep h₁ (.claim hopened)) (.copy rfl)) (.commit rfl)
  unfold MmapWriter.makeRoom at hroom
  split at hroom
  · rename_i hroll
    have hmarked := hkeep h (.mark hphase hp hroll)
    have hcreated := hkeep hmarked (.create rfl)
    have hopened := hkeep hcreated (.size rfl hroom)
    rw [if_pos hroll]
    exact htail hopened rfl rfl
  · rename_i hroll
    obtain ⟨rfl, rfl⟩ := Prod.mk.inj (Option.some.inj hroom)
    have hopened := hkeep h (.room hphase hp (by simpa using hroll))
    have hdone := htail hopened rfl rfl
    rw [if_neg hroll]
    exact hdone

/-- A whole append is a run of the writer's steps. -/
theorem Sys.Run.append (h : Sys.Run maxFileSize sys) {w w' : MmapWriter} {p : Payload} {offset : Option Nat}
    {d : Dir} (hphase : sys.phase = .ready w) (hp : Fits maxFileSize p)
    (hrun : w.append sys.dir p = some (offset, w', d)) :
    Sys.Run maxFileSize { sys with
      dir := d
      phase := .ready w'
      rolled := if w.rollsOver p.length then sys.rolled + 1 else sys.rolled
      appended := sys.appended ++ [p] } :=
  append_rule (fun h hstep => h.step hstep) h hphase hp hrun

/-- The steps of the constructor are those of the code's function. -/
theorem Sys.Run.create (h : Sys.Run maxFileSize sys) {w : MmapWriter} {d : Dir}
    (hphase : sys.phase = .down) (hrun : MmapWriter.create maxFileSize sys.dir = some (w, d)) :
    Sys.Run maxFileSize { sys with
      dir := d
      phase := .ready w } :=
  (h.step (.start hphase)).step (.started rfl hrun)

end Runs

/-! ## Files with room for one byte -/

/-- The directory with a record at `off`. -/
def Dir.recorded (d : Dir) (index off : Nat) (p : Payload) : Dir :=
  ((d.edit index fun m => (m.store32 off p.length).store32 (off + 4) 0).edit index fun m =>
    m.blit (off + 8) p).commit index (off + 8)

section Appended

variable {w : MmapWriter} {d : Dir} {p : Payload}

/-- `append`, once there is room. -/
theorem append_of_room {w₁ : MmapWriter} {d₁ : Dir} (hpos : 0 < p.length) (hlt : p.length < eofMarker)
    (hroom : w.makeRoom d p.length = some (w₁, d₁)) :
    w.append d p = some (some (globalOffset w₁.currentFileIndex w₁.currentOffset),
      { w₁ with currentOffset := w₁.currentOffset + (8 + p.length) },
      d₁.recorded w₁.currentFileIndex w₁.currentOffset p) := by
  have hplace : w₁.currentOffset + (8 + p.length) - p.length = w₁.currentOffset + 8 := by omega
  have hstart : w₁.currentOffset + 8 - 8 = w₁.currentOffset := by omega
  have hreserve : w.reserve d p.length = some (w₁.claim d₁ p.length) := by
    unfold MmapWriter.reserve
    rw [hroom]
    rfl
  unfold MmapWriter.append
  rw [if_neg (by omega), hreserve]
  show some (some (globalOffset w₁.currentFileIndex (w₁.currentOffset + (8 + p.length) - p.length - 8)), _,
    Dir.commit _ _ (w₁.currentOffset + (8 + p.length) - p.length)) = _
  unfold Dir.recorded
  dsimp only
  rw [hplace, hstart]

theorem makeRoom_stay (hroll : w.rollsOver p.length = false) :
    w.makeRoom d p.length = some (w, d) := by
  unfold MmapWriter.makeRoom
  rw [hroll]
  rfl

theorem makeRoom_roll (hroll : w.rollsOver p.length = true) (hpos : 0 < w.maxFileSize)
    (hmax : w.maxFileSize < 2 ^ 63) : w.makeRoom d p.length =
      some (⟨w.maxFileSize, nextIndex w.currentFileIndex, 0⟩,
        ((w.markEof d).create (nextIndex w.currentFileIndex)).truncate (nextIndex w.currentFileIndex)
          w.maxFileSize) := by
  unfold MmapWriter.makeRoom MmapWriter.openFile MmapWriter.sizeFile
  rw [if_pos hroll, if_neg (by omega)]

end Appended

theorem fits_byte (b : UInt8) : Fits 17 [b] :=
  ⟨Nat.one_pos, Nat.le_refl 9, show 1 < eofMarker by decide⟩

/-- In files of 17 bytes every record but the first starts a new one. -/
theorem rollsOver_byte (index : Nat) (b : UInt8) :
    (⟨17, index, 9⟩ : MmapWriter).rollsOver [b].length = true :=
  (rollsOver_iff (fits_byte b) (by decide)).mpr (show 17 < 9 + (8 + 1) + 8 by decide)

theorem makeRoom_byte (d : Dir) (index : Nat) (b : UInt8) :
    (⟨17, index, 9⟩ : MmapWriter).makeRoom d [b].length = some (⟨17, nextIndex index, 0⟩,
      (((⟨17, index, 9⟩ : MmapWriter).markEof d).create (nextIndex index)).truncate (nextIndex index)
        17) := by
  have hmax : (⟨17, index, 9⟩ : MmapWriter).maxFileSize < 2 ^ 63 := show 17 < 2 ^ 63 by decide
  have hpos : 0 < (⟨17, index, 9⟩ : MmapWriter).maxFileSize := show 0 < 17 by decide
  exact makeRoom_roll (rollsOver_byte index b) hpos hmax

theorem append_byte (d : Dir) (index : Nat) (b : UInt8) : (⟨17, index, 9⟩ : MmapWriter).append d [b] =
    some (some (globalOffset (nextIndex index) 0), ⟨17, nextIndex index, 0 + (8 + [b].length)⟩,
      Dir.recorded ((((⟨17, index, 9⟩ : MmapWriter).markEof d).create (nextIndex index)).truncate
        (nextIndex index) 17) (nextIndex index) 0 [b]) := by
  have happend := append_of_room (fits_byte b).pos (fits_byte b).lt (makeRoom_byte d index b)
  exact happend

/-- `n + 1` records in as many files; the indices wrap. -/
theorem run_bytes (n : Nat) : ∃ sys, Sys.Run 17 sys ∧ sys.phase = .ready ⟨17, n % 2 ^ 32, 9⟩ ∧
    sys.rolled = n ∧ sys.reader = none ∧ sys.returned = [] ∧
    sys.appended = List.replicate (n + 1) [0] := by
  induction n with
  | zero =>
    have hcreate : MmapWriter.create 17 ∅ = some (⟨17, 0, 0⟩, (Dir.create ∅ 0).truncate 0 17) := by
      show MmapWriter.sizeFile ⟨17, 0, 0⟩ (Dir.create ∅ 0) 0 = _
      unfold MmapWriter.sizeFile
      rw [if_neg (by decide)]
    have hroll : (⟨17, 0, 0⟩ : MmapWriter).rollsOver [(0 : UInt8)].length = false := by
      rw [← Bool.not_eq_true, rollsOver_iff (fits_byte 0) (by decide)]
      decide
    have happend := append_of_room (d := (Dir.create ∅ 0).truncate 0 17) (fits_byte 0).pos
      (fits_byte 0).lt (makeRoom_stay hroll)
    refine ⟨_, (Sys.Run.init.create rfl hcreate).append rfl (fits_byte 0) happend, rfl, ?_, rfl, rfl, rfl⟩
    dsimp only
    rw [hroll]
    rfl
  | succ n ih =>
    obtain ⟨sys, h, hphase, hrolled, hreader, hreturned, happended⟩ := ih
    refine ⟨_, h.append hphase (fits_byte 0) (append_byte sys.dir (n % 2 ^ 32) 0), ?_, ?_, hreader,
      hreturned, ?_⟩
    · dsimp only
      unfold nextIndex
      rw [Nat.mod_add_mod]
      rfl
    · dsimp only
      rw [if_pos (rollsOver_byte _ 0), hrolled]
    · dsimp only
      rw [happended, ← List.replicate_succ']

/-- A record of one byte at the start of a file is read back, whatever was there. -/
theorem read_recorded {d : Dir} {f : File} (hf : d.lookup 0 = some f) (hsize : f.size = 17) (b : UInt8) :
    ∃ r, (MmapReader.create (d.recorded 0 0 [b])).readNext (d.recorded 0 0 [b]) 1 = some (some [b], r) := by
  have hfile : ∃ m, (d.recorded 0 0 [b]).lookup 0 = some ⟨17, m⟩ ∧ m.load32 4 = 1 ∧ m.slice 8 1 = [b] := by
    have hclaim := Dir.lookup_edit (g := fun m => (m.store32 0 1).store32 4 0) hf
    have hcopy := Dir.lookup_edit (g := fun m => m.blit 8 [b]) hclaim
    have hcommit := Dir.lookup_edit (g := fun m => m.store32 4 (m.load32 0)) hcopy
    dsimp only at hcommit
    rw [hsize] at hcommit
    refine ⟨_, hcommit, ?_, ?_⟩
    · have hlen : (((f.bytes.store32 0 1).store32 4 0).blit 8 [b]).load32 0 = 1 := by
        have hrest : SameOn (((f.bytes.store32 0 1).store32 4 0).blit 8 [b]) (f.bytes.store32 0 1) 0 4 :=
          (SameOn.blit _ _ (Or.inl (by decide))).trans (SameOn.store32 _ _ (by decide))
        rw [hrest.load32_eq le_rfl le_rfl, Bytes.load32_store32 _ _ (by decide)]
      rw [hlen, Bytes.load32_store32 _ _ (by decide)]
    · have hrest : SameOn ((((f.bytes.store32 0 1).store32 4 0).blit 8 [b]).store32 4
          ((((f.bytes.store32 0 1).store32 4 0).blit 8 [b]).load32 0))
          (((f.bytes.store32 0 1).store32 4 0).blit 8 [b]) 8 9 := SameOn.store32 _ _ (by decide)
      rw [hrest.slice_eq le_rfl le_rfl]
      exact Bytes.slice_blit _ _ [b]
  obtain ⟨m, hm, hlen, hdata⟩ := hfile
  have hcreate : MmapReader.create (d.recorded 0 0 [b]) = ⟨0, true, 0, 17⟩ := by
    unfold MmapReader.create MmapReader.openFile
    rw [hm]
    rfl
  rw [hcreate, MmapReader.readNext]
  dsimp only
  rw [show MmapReader.retry ⟨0, true, 0, 17⟩ (d.recorded 0 0 [b]) = ⟨0, true, 0, 17⟩ from rfl]
  dsimp only
  rw [Dir.bytes_eq hm, if_neg (by decide), if_neg (by decide)]
  dsimp only
  rw [hlen, if_neg (by decide), if_neg (by decide), hdata]
  exact ⟨_, rfl⟩

/-- After `2^32` records of one byte in as many files the next one goes to
`journal-0` again: a reader that starts there gets it first. -/
theorem journal_wraps : ∃ sys, Sys.Run 17 sys ∧ sys.rolled = 2 ^ 32 ∧
    sys.appended = List.replicate (2 ^ 32) [0] ++ [[1]] ∧ sys.returned = [[1]] ∧
    ¬ sys.returned <+: sys.appended := by
  obtain ⟨n, hn⟩ : ∃ n, n + 1 = 2 ^ 32 := ⟨2 ^ 32 - 1, rfl⟩
  obtain ⟨sys, h, hphase, hrolled, hreader, hreturned, happended⟩ := run_bytes n
  have hindex : nextIndex (n % 2 ^ 32) = 0 := by
    unfold nextIndex
    omega
  have happend := append_byte sys.dir (n % 2 ^ 32) 1
  rw [hindex] at happend
  have hlast := h.append hphase (fits_byte 1) happend
  have hattached := hlast.step (.attach hreader)
  -- the file is opened and has its size, old or new
  obtain ⟨f, hf, hsize⟩ : ∃ f, (((MmapWriter.markEof ⟨17, n % 2 ^ 32, 9⟩ sys.dir).create 0).truncate 0
      17).lookup 0 = some f ∧ f.size = 17 := by
    cases hold : (MmapWriter.markEof ⟨17, n % 2 ^ 32, 9⟩ sys.dir).lookup 0 with
    | none => exact ⟨_, Dir.lookup_truncate (Dir.lookup_create hold), rfl⟩
    | some f =>
      rw [Dir.create_eq hold]
      exact ⟨_, Dir.lookup_truncate hold, rfl⟩
  obtain ⟨r, hread⟩ := read_recorded hf hsize 1
  have hdone := hattached.step (.read rfl hread)
  refine ⟨_, hdone, ?_, ?_, ?_, ?_⟩
  · dsimp only
    rw [if_pos (rollsOver_byte _ 1), hrolled, hn]
  · dsimp only
    rw [happended, hn]
  · dsimp only
    rw [hreturned]
    rfl
  · dsimp only
    rw [hreturned, happended, List.replicate_succ]
    rintro ⟨more, hmore⟩
    have hhead := congrArg List.head? hmore
    revert hhead
    show ¬ (some [(1 : UInt8)] = some [0])
    decide

/-- Two files, and a reader that has not begun. -/
theorem sample_fifo : ∃ sys r, Sys.Run 17 sys ∧ sys.reader = some r ∧ sys.rolled = 1 ∧
    sys.returned <+: sys.appended ∧ Drains sys.dir 3 r [[0], [0]] := by
  obtain ⟨sys, h, hphase, hrolled, hreader, hreturned, happended⟩ := run_bytes 1
  have hattached := h.step (.attach hreader)
  obtain ⟨hpart, hdrains, -⟩ := journal_fifo hattached (by dsimp only; rw [hrolled]; decide)
  refine ⟨_, _, hattached, rfl, hrolled, hpart, ?_⟩
  have hall := hdrains _ rfl 3 (by dsimp only; rw [hrolled]; decide)
  dsimp only at hall
  rw [hreturned, happended] at hall
  exact hall

end Exchange.MmapLog
