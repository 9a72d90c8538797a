import Exchange.Ipc.Fifo

/-!
# Places in the journal

`places` lists the records of a journal in order, each with the global offset of the place
behind it, which is what `get_offset` returns once the record has been read. A reader that has
got `n` records stands behind the `n`th of them (`At.place`), and `seek` leads there from any
other place (`At.seek`), as long as the offset is one that can be taken apart again: the place
is below `2^32`.
-/

namespace Exchange.MmapLog

open Lib

/-- The records from `off` on of the file `i`. -/
def ends (i : Nat) : Nat → List Payload → List (Payload × Nat)
  | _, [] => []
  | off, p :: ps => (p, globalOffset i (off + (8 + p.length))) :: ends i (off + (8 + p.length)) ps

/-- The records of the files from `i` on. -/
def places : Nat → List (List Payload) → List (Payload × Nat)
  | _, [] => []
  | i, recs :: files => ends i 0 recs ++ places (i + 1) files

/-- The bytes that records take up. -/
def extent (ps : List Payload) : Nat := (ps.map fun p => 8 + p.length).sum

section Lists

variable {i off : Nat}

/-- One record more takes its header and its bytes. -/
theorem extent_snoc (ps : List Payload) (p : Payload) : extent (ps ++ [p]) = extent ps + (8 + p.length) := by
  unfold extent
  rw [List.map_append, List.sum_append, List.map_singleton, List.sum_singleton]

/-- A chain ends where its records do. -/
theorem Chain.extent_eq {m : Bytes} {xs : List Payload} {off' : Nat} (h : Chain m off xs off') :
    off' = off + extent xs := by
  induction xs generalizing off with
  | nil => exact h
  | cons p ps ih =>
    have htail := ih h.2.2
    have hcons : extent (p :: ps) = 8 + p.length + extent ps := rfl
    omega

theorem ends_append (xs ys : List Payload) (off : Nat) :
    ends i off (xs ++ ys) = ends i off xs ++ ends i (off + extent xs) ys := by
  induction xs generalizing off with
  | nil => rfl
  | cons p ps ih =>
    have hcons : extent (p :: ps) = 8 + p.length + extent ps := rfl
    rw [List.cons_append, ends, ih, ends, List.cons_append, hcons, Nat.add_assoc off]

theorem map_fst_ends (xs : List Payload) (off : Nat) : (ends i off xs).map Prod.fst = xs := by
  induction xs generalizing off with
  | nil => rfl
  | cons p ps ih => exact congrArg _ (ih _)

theorem places_append (fs gs : List (List Payload)) (i : Nat) :
    places i (fs ++ gs) = places i fs ++ places (i + fs.length) gs := by
  induction fs generalizing i with
  | nil => rfl
  | cons recs fs ih =>
    rw [List.cons_append, places, ih, places, List.append_assoc, List.length_cons, Nat.add_right_comm,
      Nat.add_assoc i]

theorem map_fst_places (fs : List (List Payload)) (i : Nat) :
    (places i fs).map Prod.fst = fs.flatten := by
  induction fs generalizing i with
  | nil => rfl
  | cons recs fs ih => rw [places, List.map_append, map_fst_ends, ih, List.flatten_cons]

theorem length_places (full : List (List Payload)) (cur : List Payload) :
    (places 0 (full ++ [cur])).length = (full.flatten ++ cur).length := by
  rw [← List.length_map (f := Prod.fst), map_fst_places, List.flatten_append, List.flatten_singleton]

/-- The places up to a record of a file, and those behind it. -/
theorem places_split {fs : List (List Payload)} {k : Nat} {pre post : List Payload}
    (hrecs : fs[k]? = some (pre ++ post)) : ∃ rest, places 0 fs =
      (places 0 (fs.take k) ++ ends k 0 pre) ++ (ends k (extent pre) post ++ rest) := by
  obtain ⟨hlt, hget⟩ := List.getElem?_eq_some_iff.mp hrecs
  have hsplit := List.take_append_drop k fs
  rw [List.drop_eq_getElem_cons hlt, hget] at hsplit
  have hlen : (fs.take k).length = k := List.length_take_of_le (Nat.le_of_lt hlt)
  refine ⟨places (k + 1) (fs.drop (k + 1)), ?_⟩
  rw [← hsplit, places_append, hlen, Nat.zero_add, places, ends_append, Nat.zero_add, hsplit]
  simp only [List.append_assoc]

/-- A place is behind the record it is of. -/
theorem ends_getElem? {xs : List Payload} {n : Nat} {p : Payload} {offset : Nat}
    (h : (ends i off xs)[n]? = some (p, offset)) : ∃ pre post, xs = pre ++ p :: post ∧
      pre.length = n ∧ offset = globalOffset i (off + extent pre + (8 + p.length)) := by
  induction xs generalizing off n with
  | nil => cases h
  | cons q qs ih =>
    cases n with
    | zero =>
      obtain ⟨rfl, rfl⟩ := Prod.mk.inj (Option.some.inj h)
      exact ⟨[], qs, rfl, rfl, rfl⟩
    | succ n =>
      obtain ⟨pre, post, rfl, hlen, hoffset⟩ := ih h
      refine ⟨q :: pre, post, rfl, congrArg _ hlen, ?_⟩
      have hcons : extent (q :: pre) = 8 + q.length + extent pre := rfl
      rw [hoffset, hcons, Nat.add_assoc off]

/-- A place is the one behind a record of some file. -/
theorem places_getElem? {fs : List (List Payload)} {n : Nat} {p : Payload} {offset : Nat}
    (h : (places i fs)[n]? = some (p, offset)) : ∃ k pre post, fs[k]? = some (pre ++ p :: post) ∧
      n = (fs.take k).flatten.length + pre.length ∧
      offset = globalOffset (i + k) (extent pre + (8 + p.length)) := by
  induction fs generalizing i n with
  | nil => cases h
  | cons recs fs ih =>
    have hlen : (ends i 0 recs).length = recs.length := by
      rw [← List.length_map (f := Prod.fst), map_fst_ends]
    rw [places] at h
    by_cases hn : n < recs.length
    · rw [List.getElem?_append_left (by omega)] at h
      obtain ⟨pre, post, rfl, rfl, rfl⟩ := ends_getElem? h
      refine ⟨0, pre, post, rfl, ?_, ?_⟩
      · rw [List.take_zero, List.flatten_nil, List.length_nil, Nat.zero_add]
      · rw [Nat.zero_add, Nat.add_zero]
    · rw [List.getElem?_append_right (by omega), hlen] at h
      obtain ⟨k, pre, post, hk, hpre, hoffset⟩ := ih h
      refine ⟨k + 1, pre, post, hk, ?_, ?_⟩
      · rw [List.take_succ_cons, List.flatten_cons, List.length_append]
        omega
      · rw [hoffset, Nat.add_assoc, Nat.add_comm 1 k]

end Lists

/-! ## Readers -/

section Readers

variable {maxFileSize : Nat} {d d' : Dir} {full full' : List (List Payload)} {cur cur' : List Payload}
  {r r' : MmapReader} {got : List Payload}

/-- More of the journal, with the same places. -/
theorem Grows.places (h : Grows maxFileSize d d' full full' cur cur') :
    places 0 (full ++ [cur]) <+: places 0 (full' ++ [cur']) := by
  obtain ⟨more, hmore⟩ := h.records _ _ (last_getElem? full cur)
  obtain ⟨rest, hrest⟩ := places_split hmore
  have hle := h.files.length_le
  have htake : (full' ++ [cur']).take full.length = full := by
    rw [List.take_append_of_le_length hle]
    exact (List.prefix_iff_eq_take.mp h.files).symm
  rw [hrest, htake, places_append, Nat.zero_add]
  exact ⟨ends full.length (extent cur) more ++ rest, by rw [MmapLog.places, MmapLog.places, List.append_nil]⟩

/-- `read_next` leaves a reader behind the record it returns. -/
theorem readNext_behind {d : Dir} : ∀ {fuel : Nat} {r r' : MmapReader} {p : Payload},
    r.readNext d fuel = some (some p, r') → r'.mapped = true ∧ 0 < r'.currentOffset
  | 0, _, _, _, h => by cases h
  | fuel + 1, r, r', p, h => by
    rw [MmapReader.readNext] at h
    dsimp only at h
    split at h
    · cases h
    rename_i hmapped
    split at h
    · cases h
    split at h
    · cases h
    split at h
    · exact readNext_behind h
    · obtain ⟨-, rfl⟩ := Prod.mk.inj (Option.some.inj h)
      exact ⟨not_not.mp hmapped, by dsimp only; omega⟩

/-- A reader behind a record: the record is there, and this is its place. -/
theorem At.place {p : Payload} (h : At maxFileSize d full cur r (got ++ [p])) (hmapped : r.mapped = true)
    (hoffset : 0 < r.currentOffset) :
    (places 0 (full ++ [cur]))[got.length]? = some (p, r.getOffset) ∧
      (d.bytes r.currentFileIndex).slice (r.currentOffset - p.length) p.length = p := by
  generalize hgot : got ++ [p] = all at h
  cases h with
  | waiting _ hm =>
    rw [hm] at hmapped
    cases hmapped
  | @reading pre post f _ hrecs hfile _ _ _ hchain =>
    have hend : r.currentOffset = extent pre := by
      rw [hchain.extent_eq, Nat.zero_add]
    -- the file is not at its start, so the last record is in it
    rcases List.eq_nil_or_concat pre with rfl | ⟨pre, q, rfl⟩
    · exact absurd hend (Nat.ne_of_gt hoffset)
    rw [List.concat_eq_append] at *
    rw [← List.append_assoc] at hgot
    obtain ⟨rfl, hq⟩ := List.append_inj' hgot rfl
    obtain rfl : p = q := (List.cons.inj hq).1
    have hindex : r.currentFileIndex ≤ full.length := by
      have hlt := (List.getElem?_eq_some_iff.mp hrecs).1
      rw [List.length_append, List.length_singleton] at hlt
      omega
    rw [List.append_assoc] at hrecs
    refine ⟨?_, ?_⟩
    · obtain ⟨rest, hrest⟩ := places_split hrecs
      have hlen : (places 0 ((full ++ [cur]).take r.currentFileIndex) ++
          ends r.currentFileIndex 0 pre).length =
          ((full.take r.currentFileIndex).flatten ++ pre).length := by
        rw [← List.length_map (f := Prod.fst), List.map_append, map_fst_places, map_fst_ends,
          List.take_append_of_le_length hindex]
      rw [hrest, ← hlen, List.getElem?_append_right le_rfl, Nat.sub_self, List.cons_append, ends,
        List.cons_append, List.getElem?_cons_zero, MmapReader.getOffset, hend, extent_snoc]
    · obtain ⟨mid, hpre, hlast⟩ := hchain.split
      obtain ⟨-, hdata, hstop⟩ := hlast
      have hstart : r.currentOffset - p.length = mid + 8 := by
        rw [show r.currentOffset = mid + (8 + p.length) from hstop]
        omega
      rw [Dir.bytes_eq hfile, hstart]
      exact hdata

/-- Below 2^32 an address is the file and the offset side by side. -/
theorem globalOffset_eq {i stop : Nat} (h : stop < 2 ^ 32) : globalOffset i stop = i * 2 ^ 32 + stop := by
  unfold globalOffset
  rw [← Nat.shiftLeft_add_eq_or_of_lt h, Nat.shiftLeft_eq]

/-- A file with records is there, and the records end where there is room for the marker. -/
theorem Published.holds (hpub : Published maxFileSize d full cur) {k : Nat} {recs : List Payload}
    (hrecs : (full ++ [cur])[k]? = some recs) (hne : recs ≠ []) : ∃ f, d.lookup k = some f ∧
      f.size = maxFileSize ∧ Chain f.bytes 0 recs (extent recs) ∧ extent recs + 8 ≤ maxFileSize := by
  have hchain : ∀ f off, d.lookup k = some f → f.size = maxFileSize → Chain f.bytes 0 recs off →
      off + 8 ≤ maxFileSize → ∃ f, d.lookup k = some f ∧ f.size = maxFileSize ∧
        Chain f.bytes 0 recs (extent recs) ∧ extent recs + 8 ≤ maxFileSize := by
    intro f off hf hsize hchain hroom
    obtain rfl : off = extent recs := by
      rw [hchain.extent_eq, Nat.zero_add]
    exact ⟨f, hf, hsize, hchain, hroom⟩
  by_cases hlt : k < full.length
  · rw [List.getElem?_append_left hlt] at hrecs
    obtain ⟨f, hf, hsize, off, hoff, hroom, -⟩ := hpub.complete k recs hrecs
    exact hchain f off hf hsize hoff hroom
  · have hle := (List.getElem?_eq_some_iff.mp hrecs).1
    rw [List.length_append, List.length_singleton] at hle
    obtain rfl : k = full.length := by omega
    rw [last_getElem?] at hrecs
    obtain rfl := Option.some.inj hrecs
    have hlast := hpub.last
    generalize hfile : d.lookup full.length = file at hlast
    cases hlast with
    | missing => exact absurd rfl hne
    | empty _ => exact absurd rfl hne
    | live hsize _ hoff hfit _ => exact hfile ▸ hchain _ _ hfile hsize hoff (hfit.resolve_right hne)

/-- `seek`, to a file that is there. -/
theorem seek_to {k offset : Nat} {f : File} (hf : d.lookup k = some f) (hpos : f.size ≠ 0)
    (hfile : offset >>> 32 = k) (hplace : offset % 2 ^ 32 ≤ f.size) :
    ((MmapReader.create d).seek d offset).2 = ⟨k, true, offset % 2 ^ 32, f.size⟩ := by
  have hopen : ∀ r : MmapReader, r.openFile d k = ⟨k, true, 0, f.size⟩ := by
    intro r
    unfold MmapReader.openFile
    rw [hf]
    exact if_neg hpos
  have hat : (if k ≠ (MmapReader.create d).currentFileIndex ∨ ¬ (MmapReader.create d).mapped then
      (MmapReader.create d).openFile d k else MmapReader.create d) = ⟨k, true, 0, f.size⟩ := by
    split
    · exact hopen _
    · rename_i hsame
      have hzero : (MmapReader.create d).currentFileIndex = 0 := MmapReader.openFile_index ..
      have hk : k = 0 := by
        by_contra hne
        exact hsame (Or.inl (hzero ▸ hne))
      unfold MmapReader.create
      rw [← hopen ⟨0, false, 0, 0⟩, hk]
  unfold MmapReader.seek
  dsimp only
  rw [hfile, hat]
  dsimp only
  rw [if_neg (by simp), if_neg (Nat.not_lt.mpr hplace)]

/-- `seek` to a place leads behind its record. -/
theorem At.seek (hpub : Published maxFileSize d full cur) (hsize : maxFileSize - 8 < 2 ^ 32) {n : Nat}
    {p : Payload} {offset : Nat} (h : (places 0 (full ++ [cur]))[n]? = some (p, offset)) :
    offset ≠ 0 ∧ ∃ got, got.length = n + 1 ∧
      At maxFileSize d full cur ((MmapReader.create d).seek d offset).2 got := by
  obtain ⟨k, pre, post, hrecs, rfl, rfl⟩ := places_getElem? h
  have hindex : k ≤ full.length := by
    have hlt := (List.getElem?_eq_some_iff.mp hrecs).1
    rw [List.length_append, List.length_singleton] at hlt
    omega
  obtain ⟨f, hf, hfile, hchain, hroom⟩ := hpub.holds hrecs (by simp)
  rw [List.append_cons pre p post] at hrecs hchain hroom
  obtain ⟨stop, hpre, hpost⟩ := hchain.split
  have hstop : stop = extent pre + (8 + p.length) := by
    rw [hpre.extent_eq, Nat.zero_add, extent_snoc]
  have hle := hpost.le
  rw [← hstop, Nat.zero_add, globalOffset_eq (by omega)]
  refine ⟨by omega, (full.take k).flatten ++ (pre ++ [p]), ?_, ?_⟩
  · rw [List.take_append_of_le_length hindex, List.length_append, List.length_append,
      List.length_singleton, Nat.add_assoc]
  have hhigh : (k * 2 ^ 32 + stop) >>> 32 = k := by
    rw [Nat.shiftRight_eq_div_pow]
    omega
  have hlow : (k * 2 ^ 32 + stop) % 2 ^ 32 = stop := by omega
  have hseek := seek_to hf (by omega) hhigh (hlow ▸ (by omega))
  rw [hlow, hfile] at hseek
  rw [hseek]
  exact @At.reading _ _ _ _ ⟨k, true, stop, maxFileSize⟩ (pre ++ [p]) post f rfl hrecs hf hfile
    (by omega) rfl hpre

end Readers

end Exchange.MmapLog
