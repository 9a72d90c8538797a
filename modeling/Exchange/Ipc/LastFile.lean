import Exchange.Ipc.Places

/-!
# The last file of the journal

An `append` puts its record behind those of the last file (`Written.append_stays`), or, where
there is no room, makes that file a full one and begins the next with it
(`Written.append_rolls`). So the last file holds what was appended since the journal last
rolled over, with the record that made it do so in front, and a reader that starts there gets
just that (`Written.drains_last`).
-/

namespace Exchange.MmapLog

open Lib

variable {maxFileSize : Nat} {sys : Sys} {full : List (List Payload)} {cur : List Payload}

/-- The writer has gone on from the files `full` and `cur`. -/
def Onward (maxFileSize : Nat) (full : List (List Payload)) (cur : List Payload) (sys : Sys) : Prop :=
  sys.rolled < 2 ^ 32 → ∃ full' cur', Written maxFileSize sys full' cur' ∧ full <+: full' ∧
    ∃ more, (full' ++ [cur'])[full.length]? = some (cur ++ more)

/-- No step goes back to an earlier file. -/
theorem Onward.step {s s' : Sys} (h : Onward maxFileSize full cur s) (hstep : Sys.Step maxFileSize s s') :
    Onward maxFileSize full cur s' := by
  intro hsmall
  obtain ⟨full₁, cur₁, hw, hfiles, more, hlast⟩ := h (Nat.lt_of_le_of_lt hstep.rolled_le hsmall)
  obtain ⟨full₂, cur₂, hw', hgrows⟩ := hw.step hstep hsmall
  obtain ⟨more', hlast'⟩ := hgrows.records _ _ hlast
  exact ⟨full₂, cur₂, hw', hfiles.trans hgrows.files, more ++ more', by rw [hlast', List.append_assoc]⟩

/-- What is written is where the writer goes on. -/
theorem Written.onward (h : Written maxFileSize sys full cur) : Onward maxFileSize full cur sys :=
  fun _ => ⟨full, cur, h, List.prefix_rfl, [], by rw [last_getElem?, List.append_nil]⟩

/-- The writer has gone on by one file. -/
theorem Onward.rolls (h : Onward maxFileSize full cur sys) (hrolled : sys.rolled = full.length + 1)
    (hsmall : sys.rolled < 2 ^ 32) : ∃ more cur', Written maxFileSize sys (full ++ [cur ++ more]) cur' := by
  obtain ⟨full', cur', hw, ⟨last, rfl⟩, more, hlast⟩ := h hsmall
  have hone : last.length = 1 := by
    have hlen := hw.rolled
    rw [hrolled, List.length_append] at hlen
    omega
  obtain ⟨ys, rfl⟩ := List.length_eq_one_iff.mp hone
  obtain rfl : ys = cur ++ more := by
    rw [List.append_assoc, List.getElem?_append_right le_rfl, Nat.sub_self] at hlast
    exact Option.some.inj hlast
  exact ⟨more, cur', hw⟩

section Append

variable {w w' : MmapWriter} {p : Payload} {offset : Option Nat} {d : Dir}

/-- A record that is written moves the offset on. -/
theorem append_offset (hp : Fits maxFileSize p) (hrun : w.append sys.dir p = some (offset, w', d)) :
    0 < w'.currentOffset := by
  have hpos := hp.pos
  have hlt := hp.lt
  unfold MmapWriter.append at hrun
  rw [if_neg (by omega)] at hrun
  obtain ⟨⟨w₂, d₂⟩, hreserve, hrun⟩ := Option.bind_eq_some_iff.mp hrun
  obtain ⟨-, hrun⟩ := Prod.mk.inj (Option.some.inj hrun)
  obtain ⟨rfl, -⟩ := Prod.mk.inj hrun
  unfold MmapWriter.reserve at hreserve
  obtain ⟨⟨w₁, d₁⟩, -, hclaim⟩ := Option.bind_eq_some_iff.mp hreserve
  obtain ⟨rfl, -⟩ := Prod.mk.inj (Option.some.inj hclaim)
  show 0 < w₁.currentOffset + (8 + p.length)
  omega

/-- There is room for the record in the last file. -/
theorem Written.append_stays (h : Written maxFileSize sys full cur) (hphase : sys.phase = .ready w)
    (hp : Fits maxFileSize p) (hrun : w.append sys.dir p = some (offset, w', d))
    (hroll : w.rollsOver p.length = false) (hsmall : sys.rolled < 2 ^ 32) :
    Written maxFileSize { sys with
      dir := d
      phase := .ready w'
      appended := sys.appended ++ [p] } full (cur ++ [p]) := by
  have honward := append_rule Onward.step h.onward hphase hp hrun
  rw [hroll] at honward
  obtain ⟨full', cur', hw, hfiles, -⟩ := honward hsmall
  have hrolled : sys.rolled = full'.length := hw.rolled
  obtain rfl : full = full' := hfiles.eq_of_length (by rw [← h.rolled, hrolled])
  have happended : sys.appended ++ [p] = full.flatten ++ cur' := hw.appended
  rw [h.appended, List.append_assoc] at happended
  obtain rfl := List.append_cancel_left happended
  exact hw

/-- There is none, and the record begins the next file. -/
theorem Written.append_rolls (h : Written maxFileSize sys full cur) (hphase : sys.phase = .ready w)
    (hp : Fits maxFileSize p) (hrun : w.append sys.dir p = some (offset, w', d))
    (hroll : w.rollsOver p.length = true) (hsmall : sys.rolled + 1 < 2 ^ 32) :
    Written maxFileSize { sys with
      dir := d
      phase := .ready w'
      rolled := sys.rolled + 1
      appended := sys.appended ++ [p] } (full ++ [cur]) [p] := by
  have honward := append_rule Onward.step h.onward hphase hp hrun
  rw [hroll] at honward
  obtain ⟨more, cur', hw⟩ := honward.rolls (congrArg (· + 1) h.rolled) hsmall
  -- the writer's offset is behind a record, so there is one in the new file
  have hne : cur' ≠ [] := by
    intro hnil
    obtain ⟨-, f, off, -, hw', htail⟩ := hw.phase
    rw [hnil] at htail
    have hoff : off = 0 := htail.chain
    have hpos := append_offset hp hrun
    rw [hw', hoff] at hpos
    exact Nat.lt_irrefl 0 hpos
  have happended : sys.appended ++ [p] = (full ++ [cur ++ more]).flatten ++ cur' := hw.appended
  rw [h.appended, List.flatten_append, List.flatten_singleton, List.append_assoc, List.append_assoc,
    List.append_assoc] at happended
  have hrest := List.append_cancel_left (List.append_cancel_left happended)
  rcases List.append_eq_singleton_iff.mp hrest.symm with ⟨rfl, rfl⟩ | ⟨-, hnil⟩
  · rw [List.append_nil] at hw
    exact hw
  · exact absurd hnil hne

/-- A payload that fits is appended. -/
theorem Written.appends (h : Written maxFileSize sys full cur) (hphase : sys.phase = .ready w)
    (hp : Fits maxFileSize p) : ∃ place w' d, w.append sys.dir p = some (some place, w', d) := by
  have hok := h.phase
  rw [hphase] at hok
  obtain ⟨hmax, f, off, -, rfl, htail⟩ := hok
  cases hroll : (⟨maxFileSize, full.length, off⟩ : MmapWriter).rollsOver p.length with
  | false => exact ⟨_, _, _, append_of_room hp.pos hp.lt (makeRoom_stay hroll)⟩
  | true => exact ⟨_, _, _, append_of_room hp.pos hp.lt (makeRoom_roll hroll htail.pos hmax)⟩

end Append

/-- The marker is set and the next file is there, and no record in it. -/
theorem Written.room_rolls (h : Written maxFileSize sys full cur) {w w' : MmapWriter} {p : Payload}
    {d : Dir} (hphase : sys.phase = .ready w) (hp : Fits maxFileSize p)
    (hrun : w.makeRoom sys.dir p.length = some (w', d)) (hroll : w.rollsOver p.length = true)
    (hsmall : sys.rolled + 1 < 2 ^ 32) :
    Written maxFileSize { sys with
      dir := d
      phase := .opened w' p
      rolled := sys.rolled + 1 } (full ++ [cur]) [] := by
  unfold MmapWriter.makeRoom at hrun
  rw [if_pos hroll] at hrun
  have hmarked := h.onward.step (.mark hphase hp hroll)
  have hopened := (hmarked.step (.create rfl)).step (.size rfl hrun)
  obtain ⟨more, cur', hw⟩ := hopened.rolls (congrArg (· + 1) h.rolled) hsmall
  have happended : sys.appended = (full ++ [cur ++ more]).flatten ++ cur' := hw.appended
  rw [h.appended, List.flatten_append, List.flatten_singleton, List.append_assoc, List.append_assoc]
    at happended
  have hrest : more ++ cur' = [] := by
    have hnil := List.append_cancel_left happended
    rw [← List.append_nil cur, List.append_assoc] at hnil
    exact (List.append_cancel_left hnil).symm
  obtain ⟨rfl, rfl⟩ := List.append_eq_nil_iff.mp hrest
  rw [List.append_nil] at hw
  exact hw

/-- A reader that starts at a file gets its records and those behind it, and then `false`. -/
theorem Written.drains_from (h : Written maxFileSize sys full cur) {i : Nat} {f : File}
    (hi : i ≤ full.length) (hf : sys.dir.lookup i = some f) (hsize : f.size = maxFileSize)
    (hpos : 0 < maxFileSize) (hsmall : sys.rolled < 2 ^ 32) {fuel : Nat} (hfuel : sys.rolled + 1 < fuel) :
    Drains sys.dir fuel ((MmapReader.create sys.dir).seek sys.dir (i <<< 32)).2
      ((full ++ [cur]).drop i).flatten := by
  rw [h.rolled] at hsmall hfuel
  have hfile : (i <<< 32) >>> 32 = i := by
    rw [Nat.shiftLeft_eq, Nat.shiftRight_eq_div_pow]
    omega
  have hplace : (i <<< 32) % 2 ^ 32 = 0 := by
    rw [Nat.shiftLeft_eq]
    omega
  have hseek := seek_to hf (by omega) hfile (by rw [hplace]; exact Nat.zero_le _)
  rw [hseek, hplace, hsize]
  have hlen : i < (full ++ [cur]).length := by
    rw [List.length_append, List.length_singleton]
    omega
  have hat := @At.reading maxFileSize sys.dir full cur ⟨i, true, 0, maxFileSize⟩ []
    (full ++ [cur])[i] f rfl (List.getElem?_eq_getElem hlen) hf hsize hpos rfl rfl
  rw [List.append_nil] at hat
  refine hat.drains h.published hsmall hfuel _ ?_
  rw [← List.take_append_of_le_length hi, ← List.flatten_append, List.take_append_drop, List.flatten_append,
    List.flatten_singleton]

/-- A reader that starts at the last file gets its records. -/
theorem Written.drains_last (h : Written maxFileSize sys full cur) {w : MmapWriter}
    (hphase : sys.phase = .ready w) (hsmall : sys.rolled < 2 ^ 32) {fuel : Nat}
    (hfuel : sys.rolled + 1 < fuel) :
    Drains sys.dir fuel ((MmapReader.create sys.dir).seek sys.dir (full.length <<< 32)).2 cur := by
  have hok := h.phase
  rw [hphase] at hok
  obtain ⟨-, f, off, hf, -, htail⟩ := hok
  have hdrains := h.drains_from le_rfl hf htail.size htail.pos hsmall hfuel
  rw [List.drop_left, List.flatten_singleton] at hdrains
  exact hdrains

/-- Before its first record is written, a new file is read as empty, and the one before it as it was. -/
theorem Written.drains_rolled (h : Written maxFileSize sys full cur) {w w' : MmapWriter} {p : Payload}
    {d : Dir} (hphase : sys.phase = .ready w) (hp : Fits maxFileSize p)
    (hrun : w.makeRoom sys.dir p.length = some (w', d)) (hroll : w.rollsOver p.length = true)
    (hsmall : sys.rolled + 1 < 2 ^ 32) {fuel : Nat} (hfuel : sys.rolled + 2 < fuel) :
    Drains d fuel ((MmapReader.create d).seek d (full.length <<< 32)).2 cur ∧
      Drains d fuel ((MmapReader.create d).seek d ((full.length + 1) <<< 32)).2 [] := by
  have hrolled := h.room_rolls hphase hp hrun hroll hsmall
  have hlen : (full ++ [cur]).length = full.length + 1 := by
    rw [List.length_append, List.length_singleton]
  constructor
  · obtain ⟨f, hf, hsize, off, -, hoff, -⟩ := hrolled.published.complete full.length cur (last_getElem? full cur)
    have hdrains := hrolled.drains_from (hlen ▸ Nat.le_succ _) hf hsize (by omega) hsmall hfuel
    rw [List.append_assoc, List.drop_left] at hdrains
    simpa using hdrains
  · obtain ⟨-, -, f, off, hf, -, htail, -⟩ := hrolled.phase
    have hdrains := hrolled.drains_from le_rfl hf htail.size htail.pos hsmall hfuel
    rw [List.drop_left, hlen] at hdrains
    exact hdrains

end Exchange.MmapLog
