import Mathlib.Logic.Basic

/-!
# Computations that can fail

When a computation built from others gives a result, and which. Readers, changes and runs are all
built in the three ways that are listed here.

A computation that changes something as it goes may fail half way. `InPlace` has these: what was
changed before a failure stays changed, so that what is left is an outcome of its own.

Results:
* `bind_eq_ok_iff`: one computation after another.
* `map_eq_ok_iff`, `mapError_eq_ok_iff`: a function on results, and one on failures.
* `InPlace.on_bind`: one computation in place after another.
-/

namespace CaptureFilter

section

variable {ε ε' α β : Type} {x : Except ε α} {a : α} {b : β}

theorem bind_eq_ok_iff {f : α → Except ε β} : (x >>= f) = .ok b ↔ ∃ a, x = .ok a ∧ f a = .ok b := by
  cases x <;> simp [bind, Except.bind]

theorem map_eq_ok_iff {f : α → β} : x.map f = .ok b ↔ ∃ a, x = .ok a ∧ f a = b := by
  cases x <;> simp [Except.map]

theorem mapError_eq_ok_iff {f : ε → ε'} : x.mapError f = .ok a ↔ x = .ok a := by
  cases x with
  | error e => exact ⟨nofun, nofun⟩
  | ok c =>
    show (.ok c : Except ε' α) = .ok a ↔ _
    rw [Except.ok.injEq, Except.ok.injEq]

end

/-! ## Computations in place -/

/-- Computations that change a state as they go and can be stopped. -/
abbrev InPlace (ε σ : Type) := EStateM ε σ

namespace InPlace

variable {ε σ α β : Type}

/-- The state that a computation leaves, and what it answers. -/
def on (w : InPlace ε σ α) (s : σ) : σ × Except ε α :=
  match EStateM.run w s with
  | .ok x s' => (s', .ok x)
  | .error e s' => (s', .error e)

theorem on_bind (w : InPlace ε σ α) (f : α → InPlace ε σ β) (s : σ) :
    (w >>= f).on s = match w.on s with
      | (s', .ok x) => (f x).on s'
      | (s', .error e) => (s', .error e) := by
  simp only [on, EStateM.run_bind]
  cases EStateM.run w s <;> rfl

end InPlace

end CaptureFilter
