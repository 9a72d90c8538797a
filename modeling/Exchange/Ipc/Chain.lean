import Exchange.Ipc.MmapLog

/-!
# Records in a journal

`Chain m off recs off'`: from `off` on the bytes `m` hold the published records
`recs`, one behind the other, and `off'` is where the next one would begin. A file
that is full ends in the marker, and one that is being written in a length of zero.

`Published` is what all readers share: the records of every full file and of the
last one. A reader at a place in it gets the next record (`At.readNext`), whichever
files are missing or empty, and `false` only behind the last record.
-/

namespace Exchange.MmapLog

open Lib

/-- Records one behind the other. -/
def Chain (m : Bytes) : Nat → List Payload → Nat → Prop
  | off, [], off' => off' = off
  | off, p :: ps, off' =>
    (m.load32 (off + 4) = p.length ∧ 0 < p.length ∧ p.length < eofMarker) ∧
      m.slice (off + 8) p.length = p ∧ Chain m (off + (8 + p.length)) ps off'

namespace Chain

variable {m m' : Bytes} {xs ys : List Payload} {off mid off' : Nat}

/-- Each record takes at least its header. -/
theorem le : ∀ {xs : List Payload} {off off' : Nat}, Chain m off xs off' → off + 8 * xs.length ≤ off'
  | [], off, off', h => by
    rw [show off' = off from h]
    rfl
  | p :: ps, off, off', h => by
    have hle := h.2.2.le
    rw [List.length_cons]
    omega

theorem unique : ∀ {xs : List Payload} {off a b : Nat}, Chain m off xs a → Chain m off xs b → a = b
  | [], _, _, _, ha, hb => Eq.trans ha (Eq.symm hb)
  | _ :: _, _, _, _, ha, hb => ha.2.2.unique hb.2.2

theorem append : ∀ {xs : List Payload} {off : Nat}, Chain m off xs mid → Chain m mid ys off' →
    Chain m off (xs ++ ys) off'
  | [], off, h, h' => by
    rw [show mid = off from h] at h'
    exact h'
  | p :: ps, off, h, h' => ⟨h.1, h.2.1, h.2.2.append h'⟩

theorem split : ∀ {xs : List Payload} {off : Nat}, Chain m off (xs ++ ys) off' →
    ∃ mid, Chain m off xs mid ∧ Chain m mid ys off'
  | [], off, h => ⟨off, rfl, h⟩
  | p :: ps, off, h => by
    have htail : Chain m (off + (8 + p.length)) (ps ++ ys) off' := h.2.2
    obtain ⟨mid, hx, hy⟩ := htail.split
    exact ⟨mid, ⟨h.1, h.2.1, hx⟩, hy⟩

/-- The records behind those a reader has seen. -/
theorem rest (h : Chain m off (xs ++ ys) off') (hx : Chain m off xs mid) : Chain m mid ys off' := by
  obtain ⟨mid', hx', hy⟩ := h.split
  rw [hx.unique hx']
  exact hy

/-- Only the bytes of the records count. -/
theorem congr : ∀ {xs : List Payload} {off off' : Nat}, Chain m off xs off' → SameOn m m' off off' →
    Chain m' off xs off'
  | [], _, _, h, _ => h
  | p :: ps, off, off', h, hsame => by
    have hle := h.2.2.le
    refine ⟨?_, ?_, h.2.2.congr (hsame.mono (by omega) le_rfl)⟩
    · rw [← hsame.load32_eq (by omega) (by omega)]
      exact h.1
    · rw [← hsame.slice_eq (by omega) (by omega)]
      exact h.2.1

/-- One record. -/
theorem single {p : Payload} (hlen : m.load32 (off + 4) = p.length) (hpos : 0 < p.length)
    (hlt : p.length < eofMarker) (hdata : m.slice (off + 8) p.length = p) :
    Chain m off [p] (off + (8 + p.length)) :=
  ⟨⟨hlen, hpos, hlt⟩, hdata, rfl⟩

end Chain

/-- A file that is full. -/
def Full (maxFileSize : Nat) (m : Bytes) (recs : List Payload) : Prop :=
  ∃ off, Chain m 0 recs off ∧ off + 8 ≤ maxFileSize ∧ m.load32 (off + 4) = eofMarker

/-- What a reader can see of the last file. -/
inductive Shows (maxFileSize : Nat) : Option File → List Payload → Prop
  | missing : Shows maxFileSize none []
  | empty {f : File} (hsize : f.size = 0) : Shows maxFileSize (some f) []
  | live {f : File} {recs : List Payload} {off : Nat} (hsize : f.size = maxFileSize)
      (hpos : 0 < maxFileSize) (hchain : Chain f.bytes 0 recs off)
      (hfit : off + 8 ≤ maxFileSize ∨ recs = [])
      (hend : off + 8 ≤ maxFileSize → f.bytes.load32 (off + 4) = 0) :
      Shows maxFileSize (some f) recs

/-- The journal as its readers see it: the files that are full, and the last one. -/
structure Published (maxFileSize : Nat) (d : Dir) (full : List (List Payload)) (cur : List Payload) :
    Prop where
  complete : ∀ i recs, full[i]? = some recs →
    ∃ f, d.lookup i = some f ∧ f.size = maxFileSize ∧ Full maxFileSize f.bytes recs
  last : Shows maxFileSize (d.lookup full.length) cur

/-- A reader that has got the records `got`. -/
inductive At (maxFileSize : Nat) (d : Dir) (full : List (List Payload)) (cur : List Payload)
    (r : MmapReader) : List Payload → Prop
  | waiting (hindex : r.currentFileIndex ≤ full.length) (hmapped : r.mapped = false) :
      At maxFileSize d full cur r (full.take r.currentFileIndex).flatten
  | reading {pre post : List Payload} {f : File} (hmapped : r.mapped = true)
      (hrecs : (full ++ [cur])[r.currentFileIndex]? = some (pre ++ post))
      (hfile : d.lookup r.currentFileIndex = some f) (hsize : f.size = maxFileSize)
      (hpos : 0 < maxFileSize) (hread : r.fileSize = maxFileSize)
      (hchain : Chain f.bytes 0 pre r.currentOffset) :
      At maxFileSize d full cur r ((full.take r.currentFileIndex).flatten ++ pre)

section Readers

variable {maxFileSize : Nat} {d : Dir} {full : List (List Payload)} {cur : List Payload}
  {r : MmapReader} {got : List Payload}

/-- What a reader has got is a part of the journal from its start. -/
theorem At.within (h : At maxFileSize d full cur r got) : got <+: full.flatten ++ cur := by
  have hall : full.flatten ++ cur = (full ++ [cur]).flatten := by
    rw [List.flatten_append, List.flatten_singleton]
  rw [hall]
  cases h with
  | waiting hindex _ =>
    rw [← List.take_append_of_le_length hindex]
    exact ⟨((full ++ [cur]).drop r.currentFileIndex).flatten, by
      rw [← List.flatten_append, List.take_append_drop]⟩
  | @reading pre post f _ hrecs _ _ _ _ _ =>
    obtain ⟨hlt, hget⟩ := List.getElem?_eq_some_iff.mp hrecs
    have hle : r.currentFileIndex ≤ full.length := by
      rw [List.length_append, List.length_singleton] at hlt
      omega
    have hsplit := List.take_append_drop r.currentFileIndex (full ++ [cur])
    rw [List.drop_eq_getElem_cons hlt, hget, List.take_append_of_le_length hle] at hsplit
    rw [← hsplit, List.flatten_append, List.flatten_cons]
    exact ⟨post ++ ((full ++ [cur]).drop (r.currentFileIndex + 1)).flatten, by
      simp only [List.append_assoc]⟩

/-- Opening a file that the journal has, or will have next. -/
theorem At.open (hpub : Published maxFileSize d full cur) (r : MmapReader) {i : Nat}
    (hi : i ≤ full.length) : At maxFileSize d full cur (r.openFile d i) (full.take i).flatten := by
  -- a file of length 0 is not mapped yet; a file of full length is read from its start
  have hfresh : ∀ f, d.lookup i = some f → f.size = 0 →
      At maxFileSize d full cur (r.openFile d i) (full.take i).flatten := by
    intro f hf hz
    have hopen : r.openFile d i = { r with currentFileIndex := i, mapped := false, fileSize := 0 } := by
      unfold MmapReader.openFile
      rw [hf]
      exact if_pos hz
    rw [hopen]
    exact .waiting hi rfl
  have hthere : ∀ f recs, d.lookup i = some f → f.size = maxFileSize → 0 < maxFileSize →
      (full ++ [cur])[i]? = some recs →
      At maxFileSize d full cur (r.openFile d i) (full.take i).flatten := by
    intro f recs hf hsize hpos hrecs
    have hopen : r.openFile d i = ⟨i, true, 0, maxFileSize⟩ := by
      unfold MmapReader.openFile
      rw [hf]
      dsimp only
      rw [if_neg (by omega), hsize]
    rw [hopen, ← List.append_nil (full.take i).flatten]
    exact @At.reading _ _ _ _ _ [] recs f rfl hrecs hf hsize hpos rfl rfl
  -- a file before the last one is complete
  by_cases hlt : i < full.length
  · have hget : full[i]? = some full[i] := List.getElem?_eq_getElem hlt
    obtain ⟨f, hf, hsize, off, -, hoff, -⟩ := hpub.complete i _ hget
    refine hthere f full[i] hf hsize (by omega) ?_
    rw [List.getElem?_append_left hlt, hget]
  · obtain rfl : i = full.length := by omega
    have hcur : (full ++ [cur])[full.length]? = some cur := by
      rw [List.getElem?_append_right le_rfl, Nat.sub_self]
      rfl
    have hlast := hpub.last
    cases hf : d.lookup full.length with
    | none =>
      have hopen : r.openFile d full.length =
          { r with currentFileIndex := full.length, mapped := false } := by
        unfold MmapReader.openFile
        rw [hf]
      rw [hopen]
      exact .waiting le_rfl rfl
    | some f =>
      rw [hf] at hlast
      cases hlast with
      | empty hz => exact hfresh f hf hz
      | live hsize hpos _ _ _ => exact hthere f cur hf hsize hpos hcur

/-- A file that cannot be opened is the last one, and nothing is in it yet. -/
theorem Published.unopened (hpub : Published maxFileSize d full cur) {i : Nat} (hi : i ≤ full.length)
    (hm : (r.openFile d i).mapped = false) : i = full.length ∧ cur = [] := by
  have hsized : ∀ f, d.lookup i = some f → f.size = maxFileSize → 0 < maxFileSize → False := by
    intro f hf hsize hpos
    unfold MmapReader.openFile at hm
    rw [hf] at hm
    dsimp only at hm
    rw [if_neg (by omega)] at hm
    cases hm
  by_cases hlt : i < full.length
  · obtain ⟨f, hf, hsize, off, -, hoff, -⟩ := hpub.complete i full[i] (List.getElem?_eq_getElem hlt)
    exact (hsized f hf hsize (by omega)).elim
  · obtain rfl : i = full.length := by omega
    refine ⟨rfl, ?_⟩
    have hlast := hpub.last
    cases hf : d.lookup full.length with
    | none =>
      rw [hf] at hlast
      cases hlast
      rfl
    | some f =>
      rw [hf] at hlast
      cases hlast with
      | empty _ => rfl
      | live hsize hpos _ _ _ => exact (hsized f hf hsize hpos).elim

/-- What `read_next` gives a reader: the next record, or `false` once it has got
them all. -/
def Next (maxFileSize : Nat) (d : Dir) (full : List (List Payload)) (cur got : List Payload) :
    Option Payload × MmapReader → Prop
  | (some p, r) => At maxFileSize d full cur r (got ++ [p])
  | (none, r) => At maxFileSize d full cur r got ∧ got = full.flatten ++ cur

/-- The records of a file that a reader is in, and how they end. -/
theorem Published.chain (hpub : Published maxFileSize d full cur) {i : Nat} {f : File}
    {recs : List Payload} (hf : d.lookup i = some f) (hsize : f.size = maxFileSize)
    (hpos : 0 < maxFileSize) (hrecs : (full ++ [cur])[i]? = some recs) :
    ∃ off, Chain f.bytes 0 recs off ∧ (off + 8 ≤ maxFileSize ∨ recs = []) ∧
      ((i < full.length ∧ off + 8 ≤ maxFileSize ∧ f.bytes.load32 (off + 4) = eofMarker) ∨
        (i = full.length ∧ recs = cur ∧ (off + 8 ≤ maxFileSize → f.bytes.load32 (off + 4) = 0))) := by
  by_cases hlt : i < full.length
  · rw [List.getElem?_append_left hlt] at hrecs
    obtain ⟨f', hf', -, off, hchain, hoff, hend⟩ := hpub.complete i recs hrecs
    obtain rfl := Option.some.inj (hf.symm.trans hf')
    exact ⟨off, hchain, Or.inl hoff, Or.inl ⟨hlt, hoff, hend⟩⟩
  · have hle := (List.getElem?_eq_some_iff.mp hrecs).1
    rw [List.length_append, List.length_singleton] at hle
    obtain rfl : i = full.length := by omega
    rw [List.getElem?_append_right le_rfl, Nat.sub_self] at hrecs
    obtain rfl : cur = recs := Option.some.inj hrecs
    have hlast := hpub.last
    rw [hf] at hlast
    cases hlast with
    | empty hz => omega
    | live _ _ hchain hfit hend => exact ⟨_, hchain, hfit, Or.inr ⟨rfl, rfl, hend⟩⟩

/-- `read_next` of a reader that is in a file, but for what is behind the marker. -/
theorem At.readMapped (hpub : Published maxFileSize d full cur) (h : At maxFileSize d full cur r got)
    (hmapped : r.mapped = true) (fuel : Nat) :
    (∃ res, r.readNext d (fuel + 1) = some res ∧ Next maxFileSize d full cur got res) ∨
      (r.currentFileIndex < full.length ∧ got = (full.take (r.currentFileIndex + 1)).flatten ∧
        r.readNext d (fuel + 1) =
          (r.openFile d (nextIndex r.currentFileIndex)).readNext d fuel) := by
  cases h with
  | waiting _ hm =>
    rw [hm] at hmapped
    cases hmapped
  | @reading pre post f _ hrecs hf hsize hpos hread hchain =>
    obtain ⟨off, hall, hfit, hend⟩ := hpub.chain hf hsize hpos hrecs
    have hrest := hall.rest hchain
    have hbytes : d.bytes r.currentFileIndex = f.bytes := by
      unfold Dir.bytes
      rw [hf]
    have hretry : r.retry d = r := if_pos hmapped
    cases post with
    | cons p ps =>
      -- a record is there
      obtain ⟨⟨hlen, hp, hlt⟩, hdata, htail⟩ := hrest
      have hle := htail.le
      have hroom : off + 8 ≤ maxFileSize := hfit.resolve_right (by simp)
      refine Or.inl ⟨(some p, { r with currentOffset := r.currentOffset + (8 + p.length) }), ?_, ?_⟩
      · rw [MmapReader.readNext]
        dsimp only
        rw [hretry, if_neg (by simp [hmapped]), if_neg (by omega), hbytes, hlen,
          if_neg (by omega), if_neg (by omega), hdata]
      · show At maxFileSize d full cur _ (((full.take r.currentFileIndex).flatten ++ pre) ++ [p])
        rw [List.append_assoc]
        refine @At.reading _ _ _ _ _ (pre ++ [p]) ps f hmapped ?_ hf hsize hpos hread ?_
        · rw [hrecs, List.append_assoc]
          rfl
        · exact hchain.append (.single hlen hp hlt hdata)
    | nil =>
      have hoff : off = r.currentOffset := hrest
      rw [List.append_nil] at hrecs hall hend
      rw [hoff] at hend
      rcases hend with ⟨hlt, hroom, hmark⟩ | ⟨hi, rfl, hzero⟩
      · -- the marker
        refine Or.inr ⟨hlt, ?_, ?_⟩
        · rw [List.getElem?_append_left hlt] at hrecs
          rw [List.take_add_one, hrecs, List.flatten_append, Option.toList_some, List.flatten_singleton]
        · rw [MmapReader.readNext]
          dsimp only
          rw [hretry, if_neg (by simp [hmapped]), if_neg (by omega), hbytes, hmark,
            if_neg (by decide), if_pos rfl]
      · -- behind the last record
        have hgot : (full.take r.currentFileIndex).flatten ++ pre = full.flatten ++ pre := by
          rw [hi, List.take_length]
        have hfalse : r.readNext d (fuel + 1) = some (none, r) := by
          rw [MmapReader.readNext]
          dsimp only
          rw [hretry, if_neg (by simp [hmapped])]
          split
          · rfl
          · rw [hbytes, if_pos (hzero (by omega))]
        refine Or.inl ⟨_, hfalse, ?_, hgot⟩
        refine @At.reading _ _ _ _ _ pre [] f hmapped ?_ hf hsize hpos hread hchain
        rw [List.append_nil, hrecs]

/-- A reader gets the next record, or `false` behind the last one, after at most one
call for each file. -/
theorem At.readNext (hpub : Published maxFileSize d full cur) (hsmall : full.length < 2 ^ 32) :
    ∀ (fuel : Nat) {r : MmapReader} {got : List Payload}, At maxFileSize d full cur r got →
      full.length + 1 < r.currentFileIndex + fuel →
      ∃ res, r.readNext d fuel = some res ∧ Next maxFileSize d full cur got res := by
  intro fuel
  induction fuel with
  | zero =>
    intro r got h hfuel
    have hle : r.currentFileIndex ≤ full.length := by
      cases h with
      | waiting hi _ => exact hi
      | reading _ hrecs _ _ _ _ _ =>
        have hlt := (List.getElem?_eq_some_iff.mp hrecs).1
        rw [List.length_append, List.length_singleton] at hlt
        omega
    omega
  | succ fuel ih =>
    -- with the file open
    have hopened : ∀ {r : MmapReader} {got : List Payload}, At maxFileSize d full cur r got →
        r.mapped = true → full.length + 1 < r.currentFileIndex + (fuel + 1) →
        ∃ res, r.readNext d (fuel + 1) = some res ∧ Next maxFileSize d full cur got res := by
      intro r got h hmapped hfuel
      rcases h.readMapped hpub hmapped fuel with hres | ⟨hlt, hgot, hnext⟩
      · exact hres
      · have hindex : nextIndex r.currentFileIndex = r.currentFileIndex + 1 :=
          Nat.mod_eq_of_lt (by omega)
        rw [hnext, hindex, hgot]
        refine ih (At.open hpub r hlt) ?_
        have hopen : (r.openFile d (r.currentFileIndex + 1)).currentFileIndex =
            r.currentFileIndex + 1 := r.openFile_index ..
        omega
    intro r got h hfuel
    cases hmapped : r.mapped with
    | true => exact hopened h hmapped hfuel
    | false =>
      -- it tries the file again
      cases h with
      | reading hm _ _ _ _ _ _ =>
        rw [hm] at hmapped
        cases hmapped
      | waiting hindex _ =>
        have hretry := At.open hpub r hindex
        have hopen : r.retry d = r.openFile d r.currentFileIndex := if_neg (by simp [hmapped])
        cases hm : (r.openFile d r.currentFileIndex).mapped with
        | true =>
          have hsame : r.readNext d (fuel + 1) =
              (r.openFile d r.currentFileIndex).readNext d (fuel + 1) := by
            have hagain : (r.openFile d r.currentFileIndex).retry d =
                r.openFile d r.currentFileIndex := if_pos hm
            rw [MmapReader.readNext, MmapReader.readNext, hopen, hagain]
          rw [hsame]
          refine hopened hretry hm ?_
          rw [r.openFile_index]
          exact hfuel
        | false =>
          have hfalse : r.readNext d (fuel + 1) = some (none, r.openFile d r.currentFileIndex) := by
            rw [MmapReader.readNext]
            dsimp only
            rw [hopen, if_pos (by simp [hm])]
          obtain ⟨hi, hnil⟩ := hpub.unopened hindex hm
          refine ⟨_, hfalse, hretry, ?_⟩
          rw [hi, List.take_length, hnil, List.append_nil]

end Readers

end Exchange.MmapLog
