import Mathlib.Logic.Function.Basic
import Mathlib.Data.List.Basic
import Mathlib.Data.List.Nodup

/-!
# Doubly linked lists over field functions

A pool of nodes linked by two pointer fields, `next` and `prev`, held as one
function per field. `Dll L p xs q` says that the nodes `xs` are chained in
that order, entered from `p` and left towards `q`: each node's `prev` is its
left neighbour (the first one's is `p`) and each node's `next` is its right
neighbour (the last one's is `q`). Null ends are `none`.

Everything rests on `dll_append`, which cuts a chain in two, and on the two
boundary moves `Dll.setNext_last` and `Dll.setPrev_head`, which re-point the
end of one half. Unlinking a node (`Dll.unlink`) and splicing one in
(`Dll.splice`) are both "cut, move the two boundaries, paste".
-/

namespace Exchange

variable {α : Type}

/-- The two pointer fields of every node of the pool. -/
structure Links (α : Type) where
  next : α → Option α
  prev : α → Option α

/-- The nodes met by following `next` from `a`, at most `n` of them. -/
def Links.follow (L : Links α) : Nat → Option α → List α
  | 0, _ => []
  | _ + 1, none => []
  | n + 1, some a => a :: Links.follow L n (L.next a)

/-- The nodes `xs` are chained in order, entered from `p` and left towards `q`. -/
def Dll (L : Links α) : Option α → List α → Option α → Prop
  | _, [], _ => True
  | p, x :: xs, q => L.prev x = p ∧ L.next x = xs.head?.or q ∧ Dll L (some x) xs q

/-- A chain is cut at any point: each half ends where the other begins. -/
theorem dll_append {L : Links α} : ∀ {p : Option α} {xs ys : List α} {q : Option α},
    Dll L p (xs ++ ys) q ↔ Dll L p xs (ys.head?.or q) ∧ Dll L (xs.getLast?.or p) ys q
  | p, [], ys, q => by simp [Dll]
  | p, x :: xs, ys, q => by
    have hhead : (xs ++ ys).head?.or q = xs.head?.or (ys.head?.or q) := by
      cases xs <;> simp
    have hlast : (x :: xs).getLast?.or p = xs.getLast?.or (some x) := by
      cases xs with
      | nil => simp
      | cons y ys => simp [List.getLast?_cons]
    rw [List.cons_append, Dll, Dll, dll_append, hhead, hlast]
    tauto

/-- Only the fields of the chained nodes matter. -/
theorem Dll.congr {L L' : Links α} : ∀ {p : Option α} {xs : List α} {q : Option α},
    (∀ x ∈ xs, L'.next x = L.next x) → (∀ x ∈ xs, L'.prev x = L.prev x) →
      Dll L p xs q → Dll L' p xs q
  | _, [], _, _, _, _ => trivial
  | _, x :: _, _, hn, hp, ⟨h₁, h₂, h₃⟩ =>
    ⟨(hp x List.mem_cons_self).trans h₁, (hn x List.mem_cons_self).trans h₂,
      h₃.congr (fun y hy => hn y (List.mem_cons_of_mem _ hy))
        (fun y hy => hp y (List.mem_cons_of_mem _ hy))⟩

/-- What the fields of a chained node are. -/
theorem Dll.at_mid {L : Links α} {p : Option α} {xs : List α} {m : α} {ys : List α}
    {q : Option α} (h : Dll L p (xs ++ m :: ys) q) :
    L.prev m = xs.getLast?.or p ∧ L.next m = ys.head?.or q :=
  let h' := (dll_append.mp h).2
  ⟨h'.1, h'.2.1⟩

/-- Chains of the same nodes have the same fields there. -/
theorem Dll.fields_eq {L L' : Links α} {p : Option α} {xs : List α} {q : Option α} (h' : Dll L' p xs q)
    (h : Dll L p xs q) {x : α} (hx : x ∈ xs) : L'.next x = L.next x ∧ L'.prev x = L.prev x := by
  obtain ⟨ys, zs, rfl⟩ := List.append_of_mem hx
  obtain ⟨hprev', hnext'⟩ := h'.at_mid
  obtain ⟨hprev, hnext⟩ := h.at_mid
  exact ⟨hnext'.trans hnext.symm, hprev'.trans hprev.symm⟩

/-- Following `next` from the first node of a chain visits exactly the chain. -/
theorem Dll.follow_eq {L : Links α} : ∀ {p : Option α} {xs : List α} {n : Nat},
    Dll L p xs none → xs.length ≤ n → L.follow n xs.head? = xs
  | _, [], 0, _, _ => rfl
  | _, [], _ + 1, _, _ => rfl
  | _, _ :: _, 0, _, h => absurd h (by simp)
  | _, x :: xs, n + 1, ⟨_, h₂, h₃⟩, h => by
    have h₂' : L.next x = xs.head? := by simpa using h₂
    show x :: L.follow n (L.next x) = x :: xs
    rw [h₂', h₃.follow_eq (by simpa using h)]

variable [DecidableEq α]

namespace Links

/-- `a->next = v`. -/
def setNext (L : Links α) (a : α) (v : Option α) : Links α :=
  { L with next := Function.update L.next a v }

/-- `a->prev = v`. -/
def setPrev (L : Links α) (a : α) (v : Option α) : Links α :=
  { L with prev := Function.update L.prev a v }

/-- `if (a) a->next = v`. -/
def setNext? (L : Links α) : Option α → Option α → Links α
  | some a, v => L.setNext a v
  | none, _ => L

/-- `if (a) a->prev = v`. -/
def setPrev? (L : Links α) : Option α → Option α → Links α
  | some a, v => L.setPrev a v
  | none, _ => L

@[simp] theorem setNext?_some (L : Links α) (a : α) (v : Option α) :
    L.setNext? (some a) v = L.setNext a v := rfl

@[simp] theorem setPrev?_some (L : Links α) (a : α) (v : Option α) :
    L.setPrev? (some a) v = L.setPrev a v := rfl

@[simp] theorem setNext?_prev (L : Links α) (a v : Option α) :
    (L.setNext? a v).prev = L.prev := by
  cases a <;> rfl

@[simp] theorem setPrev?_next (L : Links α) (a v : Option α) :
    (L.setPrev? a v).next = L.next := by
  cases a <;> rfl

theorem setNext?_next_ne {L : Links α} {a : Option α} {x : α} (h : a ≠ some x)
    (v : Option α) : (L.setNext? a v).next x = L.next x := by
  cases a with
  | none => rfl
  | some a => exact Function.update_of_ne (fun e => h (congrArg some e.symm)) _ _

theorem setPrev?_prev_ne {L : Links α} {a : Option α} {x : α} (h : a ≠ some x)
    (v : Option α) : (L.setPrev? a v).prev x = L.prev x := by
  cases a with
  | none => rfl
  | some a => exact Function.update_of_ne (fun e => h (congrArg some e.symm)) _ _

end Links

open Links

/-- Re-pointing the last node's `next` moves the chain's exit. -/
theorem Dll.setNext_last {L : Links α} : ∀ {p : Option α} {xs : List α} {q : Option α},
    xs.Nodup → Dll L p xs q → ∀ q', Dll (L.setNext? xs.getLast? q') p xs q'
  | _, [], _, _, _, _ => trivial
  | p, [x], q, _, h, q' => by
    simpa [Dll, setNext] using h.1
  | p, x :: y :: xs, q, hnd, ⟨h₁, h₂, h₃⟩, q' => by
    have hlast : (x :: y :: xs).getLast? = (y :: xs).getLast? := by simp [List.getLast?_cons]
    have hne : (y :: xs).getLast? ≠ some x := by
      intro he
      exact (List.nodup_cons.mp hnd).1 (List.mem_of_getLast? he)
    rw [hlast]
    refine ⟨by rw [setNext?_prev]; exact h₁, ?_,
      h₃.setNext_last (List.nodup_cons.mp hnd).2 q'⟩
    rw [setNext?_next_ne hne]
    simpa using h₂

/-- Re-pointing the first node's `prev` moves the chain's entry. -/
theorem Dll.setPrev_head {L : Links α} {p : Option α} {xs : List α} {q : Option α}
    (hnd : xs.Nodup) (h : Dll L p xs q) (p' : Option α) :
    Dll (L.setPrev? xs.head? p') p' xs q := by
  cases xs with
  | nil => trivial
  | cons x xs =>
    obtain ⟨_, h₂, h₃⟩ := h
    refine ⟨by simp [setPrev], h₂, h₃.congr (L := L) (fun _ _ => rfl) (fun y hy => ?_)⟩
    refine setPrev?_prev_ne (fun he => ?_) _
    have hxy : x = y := by simpa using he
    exact (List.nodup_cons.mp hnd).1 (hxy ▸ hy)

/-- Two halves of a cut chain are pasted by re-pointing the boundary fields. -/
theorem Dll.paste {L : Links α} {xs ys : List α} {p p' q q' : Option α}
    (hnd : (xs ++ ys).Nodup) (hx : Dll L p xs q') (hy : Dll L p' ys q) :
    Dll ((L.setNext? xs.getLast? (ys.head?.or q)).setPrev? ys.head? (xs.getLast?.or p))
      p (xs ++ ys) q := by
  obtain ⟨hndx, hndy, hdisj⟩ := List.nodup_append.mp hnd
  rw [dll_append]
  constructor
  · -- the left half keeps its `prev` fields: none of its nodes heads the right half
    refine (hx.setNext_last hndx _).congr (fun _ _ => by simp) (fun x hx' => ?_)
    exact setPrev?_prev_ne (fun he => hdisj x hx' x (List.mem_of_head? he) rfl) _
  · refine Dll.setPrev_head hndy (hy.congr (fun y hy' => ?_) (fun _ _ => by simp)) _
    exact setNext?_next_ne (fun he => hdisj y (List.mem_of_getLast? he) y hy' rfl) _

/-- Unlinking a node: its neighbours are pointed at each other. -/
theorem Dll.unlink {L : Links α} {p q : Option α} {xs ys : List α} {m : α}
    (hnd : (xs ++ m :: ys).Nodup) (h : Dll L p (xs ++ m :: ys) q) :
    Dll ((L.setNext? xs.getLast? (ys.head?.or q)).setPrev? ys.head? (xs.getLast?.or p))
      p (xs ++ ys) q := by
  obtain ⟨hx, hmy⟩ := dll_append.mp h
  have hsub : (xs ++ ys).Sublist (xs ++ m :: ys) :=
    List.Sublist.append_left (List.sublist_cons_self m ys) xs
  exact Dll.paste (hnd.sublist hsub) hx hmy.2.2

/-- Splicing a fresh node `n` into a chain: its own fields are set, then its
neighbours are pointed at it. -/
theorem Dll.splice {L : Links α} {p q : Option α} {xs ys : List α} {n : α}
    (hnd : (xs ++ n :: ys).Nodup) (h : Dll L p (xs ++ ys) q) :
    Dll ((((L.setPrev n (xs.getLast?.or p)).setNext n (ys.head?.or q)).setNext?
        xs.getLast? (some n)).setPrev? ys.head? (some n)) p (xs ++ n :: ys) q := by
  obtain ⟨hx, hy⟩ := dll_append.mp h
  have hnx : n ∉ xs := fun hm =>
    (List.nodup_append.mp hnd).2.2 n hm n List.mem_cons_self rfl
  have hny : n ∉ ys := (List.nodup_cons.mp (List.nodup_append.mp hnd).2.1).1
  have keep : ∀ {x : α}, x ≠ n →
      ((L.setPrev n (xs.getLast?.or p)).setNext n (ys.head?.or q)).next x = L.next x ∧
      ((L.setPrev n (xs.getLast?.or p)).setNext n (ys.head?.or q)).prev x = L.prev x :=
    fun hne => ⟨Function.update_of_ne hne _ _, Function.update_of_ne hne _ _⟩
  have hx' : Dll ((L.setPrev n (xs.getLast?.or p)).setNext n (ys.head?.or q)) p xs
      (ys.head?.or q) :=
    hx.congr (fun x hm => (keep (fun e => hnx (e ▸ hm))).1)
      (fun x hm => (keep (fun e => hnx (e ▸ hm))).2)
  have hy' : Dll ((L.setPrev n (xs.getLast?.or p)).setNext n (ys.head?.or q))
      (xs.getLast?.or p) ys q :=
    hy.congr (fun x hm => (keep (fun e => hny (e ▸ hm))).1)
      (fun x hm => (keep (fun e => hny (e ▸ hm))).2)
  have hndy : (n :: ys).Nodup := (List.nodup_append.mp hnd).2.1
  -- first paste `n` in front of the right half, then the left half in front of both
  have hn : Dll (((L.setPrev n (xs.getLast?.or p)).setNext n (ys.head?.or q)).setPrev?
      ys.head? (some n)) (xs.getLast?.or p) (n :: ys) q := by
    refine ⟨?_, ?_, Dll.setPrev_head (List.nodup_cons.mp hndy).2 hy' _⟩
    · rw [setPrev?_prev_ne (fun he => hny (List.mem_of_head? he))]
      simp [setPrev, setNext]
    · simp [setNext]
  rw [dll_append]
  constructor
  · refine (hx'.setNext_last (List.nodup_append.mp hnd).1 _).congr (fun _ _ => by simp)
      (fun x hm => ?_)
    refine setPrev?_prev_ne (fun he => ?_) _
    exact (List.nodup_append.mp hnd).2.2 x hm x
      (List.mem_cons_of_mem _ (List.mem_of_head? he)) rfl
  · refine hn.congr (fun y hm => ?_) (fun y hm => ?_)
    · rw [setPrev?_next, setPrev?_next]
      exact setNext?_next_ne (fun he => (List.nodup_append.mp hnd).2.2 y
        (List.mem_of_getLast? he) y hm rfl) _
    · cases hh : ys.head? with
      | none => simp [setPrev?]
      | some z => simp [setPrev, setNext?_prev]

end Exchange
