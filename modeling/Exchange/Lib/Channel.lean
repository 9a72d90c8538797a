import Mathlib.Data.List.Basic

/-!
# Messages on their way

A channel that neither loses nor reorders, between a sender and a receiver that both keep a mark,
such as the number of the last message. `Carries R a ms b`: the messages `ms` that are on their way
take the receiver's mark `a` to the sender's mark `b`, each of them by `R`. Sending adds at the back
(`Carries.snoc`), receiving takes from the front (`Carries.head`), and with nothing on its way the two
marks are the same (`carries_nil`).
-/

namespace Exchange.Lib

/-- The messages take one mark to the other. -/
def Carries {α β : Type} (R : α → β → α → Prop) : α → List β → α → Prop
  | a, [], b => b = a
  | a, m :: ms, b => ∃ mid, R a m mid ∧ Carries R mid ms b

namespace Carries

variable {α β : Type} {R S : α → β → α → Prop} {a b c : α} {m : β} {ms ms' : List β}

@[simp]
theorem carries_nil : Carries R a [] b ↔ b = a := Iff.rfl

/-- What was sent first is received first. -/
theorem head (h : Carries R a (m :: ms) b) : ∃ mid, R a m mid ∧ Carries R mid ms b := h

/-- One list of messages after another. -/
theorem append (h : Carries R a ms b) (h' : Carries R b ms' c) : Carries R a (ms ++ ms') c := by
  induction ms generalizing a with
  | nil =>
    obtain rfl := carries_nil.mp h
    exact h'
  | cons m ms ih =>
    obtain ⟨mid, hm, hms⟩ := h
    exact ⟨mid, hm, ih hms⟩

theorem single (h : R a m b) : Carries R a [m] b := ⟨b, h, rfl⟩

/-- One more is sent. -/
theorem snoc (h : Carries R a ms b) (hm : R b m c) : Carries R a (ms ++ [m]) c := h.append (single hm)

theorem mono (h : Carries R a ms b) (hRS : ∀ a m b, m ∈ ms → R a m b → S a m b) : Carries S a ms b := by
  induction ms generalizing a with
  | nil => exact h
  | cons m ms ih =>
    obtain ⟨mid, hm, hms⟩ := h
    exact ⟨mid, hRS _ _ _ List.mem_cons_self hm,
      ih hms fun a' m' b' hm' => hRS a' m' b' (List.mem_cons_of_mem _ hm')⟩

/-- What every single message has. -/
theorem forall_mem (h : Carries R a ms b) {P : β → Prop} (hP : ∀ a m b, R a m b → P m) : ∀ m ∈ ms, P m := by
  induction ms generalizing a with
  | nil =>
    intro m hm
    cases hm
  | cons m ms ih =>
    obtain ⟨mid, hm, hms⟩ := h
    exact List.forall_mem_cons.mpr ⟨hP _ _ _ hm, ih hms⟩

end Carries

end Exchange.Lib
