/-!
# One computation after another

A computation with state and errors goes on exactly if it has a value, and an error ends it.
-/

namespace Lisplet.Sequence

variable {ε σ α β : Type} {x : EStateM ε σ α} {f : α → EStateM ε σ β} {s s' : σ}

theorem bind_of_ok {a : α} (h : x s = .ok a s') : (x >>= f) s = f a s' := by
  show EStateM.bind x f s = f a s'
  rw [EStateM.bind, h]

theorem bind_of_error {e : ε} (h : x s = .error e s') : (x >>= f) s = .error e s' := by
  show EStateM.bind x f s = .error e s'
  rw [EStateM.bind, h]

/-- a sequence has a value exactly if both parts have one -/
theorem bind_eq_ok {b : β} :
    (x >>= f) s = .ok b s' ↔ ∃ a s₁, x s = .ok a s₁ ∧ f a s₁ = .ok b s' := by
  cases h : x s with
  | ok a s₁ =>
    rw [bind_of_ok h]
    constructor
    · intro hf
      exact ⟨a, s₁, rfl, hf⟩
    · rintro ⟨a, s₁, he, hf⟩
      cases he
      exact hf
  | error e s₁ =>
    rw [bind_of_error h]
    constructor
    · intro he
      cases he
    · rintro ⟨a, s₁, he, _⟩
      cases he

end Lisplet.Sequence
