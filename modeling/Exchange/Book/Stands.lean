import Exchange.Book.Execute

/-!
# Where the orders are after a request

An order that rests in the book after a request was there before, at the same level and for the same
quantity, or the request has put it there (`Lob.Stands`). Of an order that a request names,
`cancel_leaves` and `modify_leaves` say where it is.
-/

namespace Exchange

/-- How an order comes to be on a side of the book after a request. -/
inductive Lob.Stands (c : Config) (a : Lob) (req : OrderRequest) (s : Slot) (o : Order) : Prop
  | stayed {x : Order} (hx : x ∈ a s) (hid : o.orderId = x.orderId) (hlevel : o.level = x.level)
      (hq : o.qtyOriginal = x.qtyOriginal)
  | entered (hact : req.action = .new) (hnone : a.find req.combinedId = none) (hs : s = req.slot)
      (hid : o.orderId = req.combinedId) (hlevel : o.level = State.newIndex c req)
      (hp : ¬ (req.p ≤ 0 ∧ req.type = .limit))
  | moved {x : Order} (hact : req.action = .modify) (hx : x ∈ a s) (hname : x.orderId = req.combinedId)
      (hid : o.orderId = req.combinedId) (hlevel : o.level = req.target c x)
      (hq : o.qtyOriginal = req.newQty x) (hmax : req.q ≤ globalMaxQty) (hexec : x.executed ≤ req.newQty x)

section Book

variable {c : Config} {a : Lob} {req : OrderRequest} {gen : Nat → Nat} {s s' : Slot} {o t : Order} {idx : Nat}

/-- What rests after a match is an order that rested before, or the taker at its own level. -/
theorem Lob.mem_execute_stays (h : o ∈ (a.execute c gen s t idx).lob s') :
    (∃ x ∈ a s', o.orderId = x.orderId ∧ o.level = x.level ∧ o.qtyOriginal = x.qtyOriginal) ∨
      (s' = s ∧ o.orderId = t.orderId ∧ o.level = idx ∧ o.qtyOriginal = t.qtyOriginal) := by
  by_cases hs : s' = s
  · subst hs
    rw [execute_self] at h
    split at h
    · exact Or.inl ⟨o, h, rfl, rfl, rfl⟩
    · rcases mem_place.mp h with rfl | h
      · exact Or.inr ⟨rfl, rfl, rfl, rfl⟩
      · exact Or.inl ⟨o, h, rfl, rfl, rfl⟩
  · obtain rfl : s' = s.flip := Slot.eq_flip hs
    rw [execute_flip] at h
    obtain ⟨x, hx, k, -, rfl⟩ := mem_sweep_rest _ _ h
    exact Or.inl ⟨x, hx, rfl, rfl, rfl⟩

/-- One request: every order that rests afterwards rested before, or is the one the request is about. -/
theorem Lob.stands (hok : a.Ok c) (h : o ∈ (a.step c gen req).lob s) : a.Stands c req s o := by
  have hout := Lob.step_outcome c gen a req
  generalize a.step c gen req = ans at h hout
  cases hout with
  | rejected qRem code => exact .stayed h rfl rfl rfl
  | entered hact hnone _ hp _ _ =>
    rw [Answer.after_lob] at h
    rcases Lob.mem_execute_stays h with ⟨x, hx, hid, hlevel, hq⟩ | ⟨hs, hid, hlevel, -⟩
    · exact .stayed hx hid hlevel hq
    · exact .entered hact hnone hs hid hlevel hp
  | cancelled _ _ => exact .stayed (Lob.mem_remove.mp h).1 rfl rfl rfl
  | kept => exact .stayed h rfl rfl rfl
  | finished => exact .stayed (Lob.mem_remove.mp h).1 rfl rfl rfl
  | @requeued s' x hact hfind hmax _ hexec _ =>
    obtain ⟨hx, hname⟩ := Lob.mem_of_find hfind
    rw [Answer.after_lob] at h
    rcases Lob.mem_execute_stays h with ⟨y, hy, hid, hlevel, hq⟩ | ⟨rfl, hid, hlevel, hq⟩
    · exact .stayed (Lob.mem_remove.mp hy).1 hid hlevel hq
    · exact .moved hact hx hname (hid.trans hname) hlevel hq hmax hexec.le
  | @shrunk s' x hact hfind hmax _ hexec hlevel _ =>
    obtain ⟨hx, hname⟩ := Lob.mem_of_find hfind
    obtain ⟨y, hy, rfl⟩ := List.mem_map.mp h
    by_cases hid : y.orderId = x.orderId
    · obtain ⟨rfl, rfl⟩ := hok.unique hy hx hid
      rw [if_pos rfl]
      exact .moved hact hx hname hname hlevel rfl hmax hexec.le
    · rw [if_neg hid]
      exact .stayed hy rfl rfl rfl

/-- A cancel leaves no order of its id. -/
theorem Lob.cancel_leaves (hact : req.action = .cancel) (h : o ∈ (a.step c gen req).lob s) :
    o.orderId ≠ req.combinedId := by
  unfold step at h
  rw [hact] at h
  dsimp only at h
  unfold cancelOrder at h
  cases hfind : a.find req.combinedId with
  | none =>
    rw [hfind] at h
    exact Lob.find_eq_none hfind h
  | some so =>
    obtain ⟨s', x⟩ := so
    rw [hfind] at h
    obtain ⟨-, hne⟩ := Lob.mem_remove.mp h
    rw [(Lob.mem_of_find hfind).2] at hne
    exact hne

/-- A replacement that is accepted leaves the order where it asks for. -/
theorem Lob.modify_leaves (hok : a.Ok c) (hact : req.action = .modify) {x : Order} (hx : x ∈ a s')
    (hname : x.orderId = req.combinedId) (hmax : req.q ≤ globalMaxQty) (hvalid : c.priceInvalid req.p = 0)
    (hexec : x.executed ≤ req.newQty x) (h : o ∈ (a.step c gen req).lob s) (hid : o.orderId = req.combinedId) :
    o.level = req.target c x := by
  have hfind : a.find req.combinedId = some (s', x) := hname ▸ hok.find_of_mem hx
  have hgone : ∀ {y}, y ∈ a.remove x.orderId s → y.orderId ≠ req.combinedId := by
    intro y hy
    rw [← hname]
    exact (Lob.mem_remove.mp hy).2
  unfold step at h
  rw [hact] at h
  dsimp only at h
  unfold modifyOrder at h
  rw [hfind] at h
  dsimp only at h
  rw [if_neg (by omega), if_neg (fun hno => hno.2 hvalid)] at h
  unfold replaceOrder at h
  rw [if_neg (by omega)] at h
  split at h
  · rename_i hsame
    obtain ⟨rfl, rfl⟩ := hok.unique h hx (hid.trans hname.symm)
    exact hsame.1
  split at h
  · exact absurd hid (hgone h)
  split at h
  · rw [Answer.after_lob] at h
    rcases Lob.mem_execute_stays h with ⟨y, hy, hyid, -, -⟩ | ⟨-, -, hlevel, -⟩
    · exact absurd (hyid.symm.trans hid) (hgone hy)
    · exact hlevel
  · rename_i hmove
    obtain ⟨m, hm, hmid, hmlevel, -⟩ := Lob.mem_resize h
    obtain ⟨rfl, rfl⟩ := hok.unique hm hx ((hmid.trans hid).trans hname.symm)
    rw [← hmlevel]
    exact not_not.mp (not_or.mp hmove).1

end Book

end Exchange
