import Exchange.Ipc.Chain

/-!
# Writing the journal

`Tail` is the last file while nothing is being appended: its records, and zeros from
the writer's offset on. Each step of the writer, taken by itself, leaves what is
published readable (`Published`) and takes nothing away from a reader that is
somewhere in it (`Grows`, `At.grows`): the marker, the new file, its size, the
header, the payload and the published length.
-/

namespace Exchange.MmapLog

open Lib

namespace Dir

variable {d : Dir} {i k size : Nat} {f : File} {g : Bytes → Bytes}

theorem lookup_edit (h : d.lookup i = some f) :
    (d.edit i g).lookup i = some { f with bytes := g f.bytes } := by
  unfold edit
  rw [h]
  exact AList.lookup_insert _

theorem lookup_edit_ne (hk : k ≠ i) : (d.edit i g).lookup k = d.lookup k := by
  unfold edit
  split
  · exact AList.lookup_insert_ne hk
  · rfl

theorem lookup_create (h : d.lookup i = none) : (d.create i).lookup i = some ⟨0, .zero⟩ := by
  unfold create
  rw [h]
  exact AList.lookup_insert _

theorem create_eq (h : d.lookup i = some f) : d.create i = d := by
  unfold create
  rw [h]

theorem lookup_create_ne (hk : k ≠ i) : (d.create i).lookup k = d.lookup k := by
  unfold create
  split
  · rfl
  · exact AList.lookup_insert_ne hk

theorem lookup_truncate (h : d.lookup i = some f) : (d.truncate i size).lookup i =
    some ⟨size, fun j => if j < f.size then f.bytes j else 0⟩ := by
  unfold truncate
  rw [h]
  exact AList.lookup_insert _

theorem lookup_truncate_ne (hk : k ≠ i) : (d.truncate i size).lookup k = d.lookup k := by
  unfold truncate
  split
  · exact AList.lookup_insert_ne hk
  · rfl

theorem bytes_eq (h : d.lookup i = some f) : d.bytes i = f.bytes := by
  unfold bytes
  rw [h]

end Dir

/-- `d'` is `d` with more in it: no reader loses what it has read. -/
structure Grows (maxFileSize : Nat) (d d' : Dir) (full full' : List (List Payload))
    (cur cur' : List Payload) : Prop where
  files : full <+: full'
  records : ∀ (i : Nat) (recs : List Payload), (full ++ [cur])[i]? = some recs →
    ∃ more : List Payload, (full' ++ [cur'])[i]? = some (recs ++ more)
  bytes : ∀ (i : Nat) (f : File) (recs : List Payload) (off : Nat), (full ++ [cur])[i]? = some recs →
    d.lookup i = some f → f.size = maxFileSize → Chain f.bytes 0 recs off →
    ∃ f', d'.lookup i = some f' ∧ f'.size = maxFileSize ∧ SameOn f.bytes f'.bytes 0 off

section Steps

variable {maxFileSize : Nat} {d d' : Dir} {full full' : List (List Payload)} {cur cur' : List Payload}

/-- A reader stays where it is. -/
theorem At.grows {r : MmapReader} {got : List Payload} (hpub : Published maxFileSize d full cur)
    (hg : Grows maxFileSize d d' full full' cur cur') (h : At maxFileSize d full cur r got) :
    At maxFileSize d' full' cur' r got := by
  have htake : ∀ {i}, i ≤ full.length → full.take i = full'.take i := by
    intro i hi
    obtain ⟨more, rfl⟩ := hg.files
    rw [List.take_append_of_le_length hi]
  cases h with
  | waiting hindex hmapped =>
    rw [htake hindex]
    exact .waiting (Nat.le_trans hindex hg.files.length_le) hmapped
  | @reading pre post f hmapped hrecs hf hsize hpos hread hchain =>
    obtain ⟨off, hall, -, -⟩ := hpub.chain hf hsize hpos hrecs
    obtain ⟨f', hf', hsize', hsame⟩ := hg.bytes _ f _ off hrecs hf hsize hall
    obtain ⟨more, hrecs'⟩ := hg.records _ _ hrecs
    have hlt := (List.getElem?_eq_some_iff.mp hrecs).1
    rw [List.length_append, List.length_singleton] at hlt
    rw [htake (by omega)]
    rw [List.append_assoc] at hrecs'
    have hle := (hall.rest hchain).le
    exact .reading hmapped hrecs' hf' hsize' hpos hread (hchain.congr (hsame.mono le_rfl (by omega)))

/-- The last file of the journal is the one behind the full ones. -/
theorem last_getElem? (full : List (List Payload)) (cur : List Payload) :
    (full ++ [cur])[full.length]? = some cur := by
  rw [List.getElem?_append_right le_rfl, Nat.sub_self]
  rfl

/-- What is written behind the records of the last file leaves the records of every file as they are. -/
theorem edit_bytes {f : File} {off : Nat} {g : Bytes → Bytes} (hf : d.lookup full.length = some f)
    (hsize : f.size = maxFileSize) (hchain : Chain f.bytes 0 cur off)
    (hsame : SameOn f.bytes (g f.bytes) 0 off) {i : Nat} {f₀ : File} {recs : List Payload} {off₀ : Nat}
    (hrecs : (full ++ [cur])[i]? = some recs) (hf₀ : d.lookup i = some f₀) (hsize₀ : f₀.size = maxFileSize)
    (hchain₀ : Chain f₀.bytes 0 recs off₀) : ∃ f', (d.edit full.length g).lookup i = some f' ∧
      f'.size = maxFileSize ∧ SameOn f₀.bytes f'.bytes 0 off₀ := by
  by_cases hi : i = full.length
  · subst hi
    obtain rfl := Option.some.inj ((last_getElem? full cur).symm.trans hrecs)
    obtain rfl := Option.some.inj (hf.symm.trans hf₀)
    obtain rfl := hchain.unique hchain₀
    exact ⟨_, Dir.lookup_edit hf, hsize, hsame⟩
  · exact ⟨f₀, by rw [Dir.lookup_edit_ne hi, hf₀], hsize₀, .refl _ _ _⟩

/-- Bytes behind the records of the last file are written, and perhaps more records
are published by that. -/
theorem Published.edit {f : File} {off off' : Nat} {g : Bytes → Bytes} {more : List Payload}
    (hpub : Published maxFileSize d full cur) (hf : d.lookup full.length = some f)
    (hsize : f.size = maxFileSize) (hpos : 0 < maxFileSize) (hchain : Chain f.bytes 0 cur off)
    (hsame : SameOn f.bytes (g f.bytes) 0 off) (hmore : Chain (g f.bytes) off more off')
    (hfit : off' + 8 ≤ maxFileSize ∨ cur ++ more = [])
    (hend : off' + 8 ≤ maxFileSize → (g f.bytes).load32 (off' + 4) = 0) :
    Published maxFileSize (d.edit full.length g) full (cur ++ more) ∧
      Grows maxFileSize d (d.edit full.length g) full full cur (cur ++ more) := by
  have hlast := last_getElem? full cur
  refine ⟨⟨fun i recs hrecs => ?_, ?_⟩, List.prefix_rfl, fun i recs hrecs => ?_,
    fun i f₀ recs off₀ hrecs hf₀ hsize₀ hchain₀ => ?_⟩
  · have hlt := (List.getElem?_eq_some_iff.mp hrecs).1
    rw [Dir.lookup_edit_ne (by omega)]
    exact hpub.complete i recs hrecs
  · rw [Dir.lookup_edit hf]
    exact .live hsize hpos ((hchain.congr hsame).append hmore) hfit hend
  · by_cases hi : i < full.length
    · rw [List.getElem?_append_left hi] at hrecs ⊢
      exact ⟨[], by rw [hrecs, List.append_nil]⟩
    · have hlt := (List.getElem?_eq_some_iff.mp hrecs).1
      rw [List.length_append, List.length_singleton] at hlt
      obtain rfl : i = full.length := by omega
      obtain rfl := Option.some.inj (hlast.symm.trans hrecs)
      exact ⟨more, last_getElem? full _⟩
  · exact edit_bytes hf hsize hchain hsame hrecs hf₀ hsize₀ hchain₀

/-- The marker makes the last file a full one; the next is not there yet. -/
theorem Published.mark {f : File} {off : Nat} {g : Bytes → Bytes}
    (hpub : Published maxFileSize d full cur) (hf : d.lookup full.length = some f)
    (hsize : f.size = maxFileSize) (hchain : Chain f.bytes 0 cur off)
    (hsame : SameOn f.bytes (g f.bytes) 0 off) (hroom : off + 8 ≤ maxFileSize)
    (hmark : (g f.bytes).load32 (off + 4) = eofMarker) (hnext : d.lookup (full.length + 1) = none) :
    Published maxFileSize (d.edit full.length g) (full ++ [cur]) [] ∧
      Grows maxFileSize d (d.edit full.length g) full (full ++ [cur]) cur [] := by
  have hlast := last_getElem? full cur
  refine ⟨⟨fun i recs hrecs => ?_, ?_⟩, List.prefix_append .., fun i recs hrecs => ?_,
    fun i f₀ recs off₀ hrecs hf₀ hsize₀ hchain₀ => ?_⟩
  · by_cases hi : i = full.length
    · subst hi
      obtain rfl := Option.some.inj (hlast.symm.trans hrecs)
      exact ⟨_, Dir.lookup_edit hf, hsize, off, hchain.congr hsame, hroom, hmark⟩
    · have hlt := (List.getElem?_eq_some_iff.mp hrecs).1
      rw [List.length_append, List.length_singleton] at hlt
      rw [List.getElem?_append_left (by omega)] at hrecs
      rw [Dir.lookup_edit_ne hi]
      exact hpub.complete i recs hrecs
  · rw [List.length_append, List.length_singleton, Dir.lookup_edit_ne (by omega), hnext]
    exact .missing
  · have hlt := (List.getElem?_eq_some_iff.mp hrecs).1
    exact ⟨[], by rw [List.getElem?_append_left hlt, hrecs, List.append_nil]⟩
  · exact edit_bytes hf hsize hchain hsame hrecs hf₀ hsize₀ hchain₀

/-- The last file comes to be, or gets its size. -/
theorem Published.grow {recs : List Payload} (hpub : Published maxFileSize d full recs)
    (hothers : ∀ k, k ≠ full.length → d'.lookup k = d.lookup k)
    (hlast : Shows maxFileSize (d'.lookup full.length) recs)
    (hbytes : ∀ f off, d.lookup full.length = some f → f.size = maxFileSize → Chain f.bytes 0 recs off →
      ∃ f', d'.lookup full.length = some f' ∧ f'.size = maxFileSize ∧ SameOn f.bytes f'.bytes 0 off) :
    Published maxFileSize d' full recs ∧ Grows maxFileSize d d' full full recs recs := by
  refine ⟨⟨fun i recs hrecs => ?_, hlast⟩, List.prefix_rfl, fun i recs hrecs => ⟨[], ?_⟩,
    fun i f₀ recs off₀ hrecs hf₀ hsize₀ hchain₀ => ?_⟩
  · have hlt := (List.getElem?_eq_some_iff.mp hrecs).1
    rw [hothers i (by omega)]
    exact hpub.complete i recs hrecs
  · rw [hrecs, List.append_nil]
  · by_cases hi : i = full.length
    · subst hi
      obtain rfl := Option.some.inj ((last_getElem? full _).symm.trans hrecs)
      exact hbytes f₀ off₀ hf₀ hsize₀ hchain₀
    · exact ⟨f₀, by rw [hothers i hi, hf₀], hsize₀, .refl _ _ _⟩

end Steps

/-! ## The last file -/

/-- The last file while nothing is being appended: zeros from `off` on. -/
structure Tail (maxFileSize : Nat) (f : File) (cur : List Payload) (off : Nat) : Prop where
  size : f.size = maxFileSize
  pos : 0 < maxFileSize
  chain : Chain f.bytes 0 cur off
  zero : ∀ i, off ≤ i → f.bytes i = 0
  fit : off + 8 ≤ maxFileSize ∨ cur = []

/-- The last file with the header of a record of `len` bytes behind its records, or
with the payload `p` as well; nothing of it is published yet. -/
structure Claimed (maxFileSize : Nat) (f : File) (cur : List Payload) (off len : Nat) : Prop where
  size : f.size = maxFileSize
  chain : Chain f.bytes 0 cur off
  reserved : f.bytes.load32 off = len
  unpublished : f.bytes.load32 (off + 4) = 0
  zero : ∀ i, off + (8 + len) ≤ i → f.bytes i = 0
  room : off + (8 + len) + 8 ≤ maxFileSize

/-- A payload the journal takes. -/
structure Fits (maxFileSize : Nat) (p : Payload) : Prop where
  pos : 0 < p.length
  room : 8 + p.length ≤ maxFileSize - 8
  lt : p.length < eofMarker

section Last

variable {maxFileSize : Nat} {f : File} {cur : List Payload} {off len : Nat} {p : Payload}

theorem load32_of_zero {m : Bytes} {i : Nat} (h : ∀ j, off ≤ j → m j = 0) (hi : off ≤ i) :
    m.load32 i = 0 :=
  Bytes.load32_zero (fun j hj _ => h j (by omega))

/-- A file shows its records up to the first zero length. -/
theorem Tail.shows (h : Tail maxFileSize f cur off) : Shows maxFileSize (some f) cur :=
  .live h.size h.pos h.chain h.fit (fun _ => load32_of_zero h.zero (by omega))

/-- With a payload that fits there is room for the marker. -/
theorem Tail.room (h : Tail maxFileSize f cur off) (hp : Fits maxFileSize p) : off + 8 ≤ maxFileSize := by
  have hroom := hp.room
  have hpos := hp.pos
  rcases h.fit with hfit | hnil
  · exact hfit
  · subst hnil
    have hoff : off = 0 := h.chain
    omega

/-- A file that has just got its size. -/
theorem tail_fresh (hsize : f.size = 0) (hpos : 0 < maxFileSize) :
    Tail maxFileSize ⟨maxFileSize, fun j => if j < f.size then f.bytes j else 0⟩ [] 0 := by
  refine ⟨rfl, hpos, rfl, fun i _ => ?_, Or.inr rfl⟩
  dsimp only
  rw [hsize, if_neg (Nat.not_lt_zero i)]

/-- `ftruncate` to the size the file has. -/
theorem Tail.resized (h : Tail maxFileSize f cur off) :
    Tail maxFileSize ⟨maxFileSize, fun j => if j < f.size then f.bytes j else 0⟩ cur off ∧
      SameOn f.bytes (fun j => if j < f.size then f.bytes j else 0) 0 off := by
  have hle : off ≤ maxFileSize := by
    rcases h.fit with hfit | hnil
    · omega
    · subst hnil
      have hoff : off = 0 := h.chain
      omega
  have hsame : SameOn f.bytes (fun j => if j < f.size then f.bytes j else 0) 0 off := by
    intro i _ hi
    have hsize := h.size
    exact (if_pos (by omega)).symm
  refine ⟨⟨rfl, h.pos, h.chain.congr hsame, fun i hi => ?_, h.fit⟩, hsame⟩
  dsimp only
  split
  · exact h.zero i hi
  · rfl

/-- `claim` on the last file. -/
theorem Tail.claim (h : Tail maxFileSize f cur off) (hlen : len < 2 ^ 32)
    (hroom : off + (8 + len) + 8 ≤ maxFileSize) :
    Claimed maxFileSize { f with bytes := (f.bytes.store32 off len).store32 (off + 4) 0 } cur off len ∧
      SameOn f.bytes ((f.bytes.store32 off len).store32 (off + 4) 0) 0 off := by
  have hsame : SameOn ((f.bytes.store32 off len).store32 (off + 4) 0) f.bytes 0 off :=
    (SameOn.store32 _ _ (by omega)).trans (SameOn.store32 _ _ (by omega))
  refine ⟨⟨h.size, h.chain.congr hsame.symm, ?_, ?_, fun i hi => ?_, hroom⟩, hsame.symm⟩
  · have hword : SameOn ((f.bytes.store32 off len).store32 (off + 4) 0) (f.bytes.store32 off len) off
        (off + 4) := SameOn.store32 _ _ (by omega)
    rw [hword.load32_eq le_rfl le_rfl, Bytes.load32_store32 _ _ hlen]
  · exact Bytes.load32_store32 _ _ (by decide)
  · have hrest : SameOn ((f.bytes.store32 off len).store32 (off + 4) 0) f.bytes i (i + 1) :=
      (SameOn.store32 _ _ (by omega)).trans (SameOn.store32 _ _ (by omega))
    exact (hrest i le_rfl (by omega)).trans (h.zero i (by omega))

/-- `memcpy` of the payload. -/
theorem Claimed.copy (h : Claimed maxFileSize f cur off p.length) :
    Claimed maxFileSize { f with bytes := f.bytes.blit (off + 8) p } cur off p.length ∧
      (f.bytes.blit (off + 8) p).slice (off + 8) p.length = p ∧
      SameOn f.bytes (f.bytes.blit (off + 8) p) 0 off := by
  have hsame : SameOn (f.bytes.blit (off + 8) p) f.bytes 0 (off + 8) := SameOn.blit _ _ (by omega)
  refine ⟨⟨h.size, h.chain.congr (hsame.mono le_rfl (by omega)).symm, ?_, ?_, fun i hi => ?_, h.room⟩,
    Bytes.slice_blit .., (hsame.mono le_rfl (by omega)).symm⟩
  · rw [← h.reserved]
    exact hsame.load32_eq (by omega) (by omega)
  · rw [← h.unpublished]
    exact hsame.load32_eq (by omega) (by omega)
  · have hrest : SameOn (f.bytes.blit (off + 8) p) f.bytes i (i + 1) := SameOn.blit _ _ (by omega)
    exact (hrest i le_rfl (by omega)).trans (h.zero i hi)

/-- `commit` publishes the record. -/
theorem Claimed.commit (h : Claimed maxFileSize f cur off p.length) (hp : Fits maxFileSize p)
    (hdata : f.bytes.slice (off + 8) p.length = p) :
    Tail maxFileSize { f with bytes := f.bytes.store32 (off + 4) (f.bytes.load32 off) } (cur ++ [p])
        (off + (8 + p.length)) ∧
      Chain (f.bytes.store32 (off + 4) (f.bytes.load32 off)) off [p] (off + (8 + p.length)) ∧
      SameOn f.bytes (f.bytes.store32 (off + 4) (f.bytes.load32 off)) 0 off := by
  have hlt : p.length < 2 ^ 32 := Nat.lt_trans hp.lt (by decide)
  have hroom := h.room
  have hsame : SameOn (f.bytes.store32 (off + 4) (f.bytes.load32 off)) f.bytes 0 off :=
    SameOn.store32 _ _ (by omega)
  have hrest : SameOn (f.bytes.store32 (off + 4) (f.bytes.load32 off)) f.bytes (off + 8)
      (off + (8 + p.length)) := SameOn.store32 _ _ (by omega)
  have hone : Chain (f.bytes.store32 (off + 4) (f.bytes.load32 off)) off [p] (off + (8 + p.length)) := by
    refine .single ?_ hp.pos hp.lt ?_
    · rw [h.reserved, Bytes.load32_store32 _ _ hlt]
    · rw [hrest.slice_eq le_rfl (by omega), hdata]
  refine ⟨⟨h.size, by omega, (h.chain.congr hsame.symm).append hone, fun i hi => ?_, Or.inl (by omega)⟩,
    hone, hsame.symm⟩
  have hbyte : SameOn (f.bytes.store32 (off + 4) (f.bytes.load32 off)) f.bytes i (i + 1) :=
    SameOn.store32 _ _ (by omega)
  exact (hbyte i le_rfl (by omega)).trans (h.zero i hi)

end Last

/-! ## The writer at the end of the last file -/

section Writer

variable {maxFileSize : Nat} {d : Dir} {n : Nat} {f : File} {cur : List Payload} {off : Nat}

/-- Below a payload that fits, the room is compared as it should be. -/
theorem rollsOver_iff {p : Payload} (hp : Fits maxFileSize p) (hmax : maxFileSize < 2 ^ 63) :
    (⟨maxFileSize, n, off⟩ : MmapWriter).rollsOver p.length = true ↔
      maxFileSize < off + (8 + p.length) + 8 := by
  have hroom := hp.room
  have hpos := hp.pos
  have hlimit : (maxFileSize + (2 ^ 64 - 8)) % 2 ^ 64 = maxFileSize - 8 := by omega
  unfold MmapWriter.rollsOver
  dsimp only
  rw [hlimit, decide_eq_true_iff]
  omega

/-- The constructor's loop goes to the end of the records. -/
theorem fastForward_chain (hf : d.lookup n = some f) (hend : f.bytes.load32 (off + 4) = 0)
    (hfit : off + 8 ≤ maxFileSize ∨ cur = []) : ∀ {recs : List Payload} {start : Nat} (fuel : Nat),
    Chain f.bytes start recs off → (recs ≠ [] → cur ≠ []) → recs.length < fuel →
    MmapWriter.fastForward fuel ⟨maxFileSize, n, start⟩ d = some (⟨maxFileSize, n, off⟩, d)
  | _, _, 0, _, _, hfuel => absurd hfuel (Nat.not_lt_zero _)
  | [], start, fuel + 1, h, _, _ => by
    obtain rfl : off = start := h
    rw [MmapWriter.fastForward]
    dsimp only
    split
    · rw [Dir.bytes_eq hf, if_pos hend]
    · rfl
  | p :: ps, start, fuel + 1, h, hcur, hfuel => by
    obtain ⟨⟨hlen, hpos, hlt⟩, -, hrest⟩ := h
    have hle := hrest.le
    have hroom : off + 8 ≤ maxFileSize := hfit.resolve_right (hcur (by simp))
    rw [MmapWriter.fastForward]
    dsimp only
    rw [if_pos (by omega), Dir.bytes_eq hf, hlen, if_neg (by omega), if_neg (by omega)]
    rw [List.length_cons] at hfuel
    exact fastForward_chain hf hend hfit fuel hrest (fun _ => hcur (by simp)) (by omega)

end Writer

end Exchange.MmapLog
