/-!
# Two fallible computations in lockstep

`Agree R x y`: both fail, with the same error, or both succeed with results that
`R` relates. It goes through a bind and along a fold, so that a relation kept by
one step is kept by a whole run, errors included.
-/

namespace Exchange.Lib

/-- Both fail alike, or both succeed with related results. -/
inductive Agree {ε α β : Type} (R : α → β → Prop) : Except ε α → Except ε β → Prop
  | error (e : ε) : Agree R (.error e) (.error e)
  | ok {a : α} {b : β} (h : R a b) : Agree R (.ok a) (.ok b)

namespace Agree

variable {ε α β γ δ : Type} {R : α → β → Prop} {S : γ → δ → Prop} {x : Except ε α} {y : Except ε β}

/-- Both go on from results that are related, or both fail alike. -/
theorem bind (h : Agree R x y) {f : α → Except ε γ} {g : β → Except ε δ}
    (hf : ∀ a b, R a b → Agree S (f a) (g b)) : Agree S (x >>= f) (y >>= g) := by
  cases h with
  | error e => exact .error e
  | ok h => exact hf _ _ h

/-- The second computation goes on to something that cannot fail. -/
theorem bind_right (h : Agree R x y) {T : α → δ → Prop} {g : β → Except ε δ}
    (hg : ∀ a b, R a b → ∃ d, g b = .ok d ∧ T a d) : Agree T x (y >>= g) := by
  cases h with
  | error e => exact .error e
  | ok h =>
    obtain ⟨d, hd, hT⟩ := hg _ _ h
    show Agree T _ (g _)
    rw [hd]
    exact .ok hT

/-- What the first computation ends in, the second one has too. -/
theorem of_ok (h : Agree R x y) {a : α} (hx : x = .ok a) : ∃ b, y = .ok b ∧ R a b := by
  cases h with
  | error e => cases hx
  | ok h =>
    obtain rfl := Except.ok.inj hx
    exact ⟨_, rfl, h⟩

end Agree

/-- What a bind that succeeds went through. -/
theorem bind_ok {ε α β : Type} {x : Except ε α} {f : α → Except ε β} {b : β} (h : x >>= f = .ok b) :
    ∃ a, x = .ok a ∧ f a = .ok b := by
  cases x with
  | error e => cases h
  | ok a => exact ⟨a, rfl, h⟩

end Exchange.Lib
